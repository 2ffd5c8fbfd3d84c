import KeywordSurvey.Lexer.State

/-!
# The grammar of source texts

Where code, comments and literals lie in a text, said by looking ahead for
what ends them and not by following a machine. A text is read from the left,
starting in code:

* a quote in code opens a literal, which runs through the first quote of the
  same kind that no backslash escapes;
* two slashes open a comment, which runs through the first newline;
* a slash and a star open a comment, which runs through the first star and
  slash after them;
* any other byte after a slash in code belongs to the code, a quote as well;
* what is never closed runs to the end of the text.

The delimiters that open a comment or a literal are code themselves, and
those that close it are part of it. `exists_reads` says that every text has
a reading; `KeywordSurvey.Proofs.Lexer.Machine` shows that it has only one.
-/

namespace KeywordSurvey.Lexer

namespace Grammar

def slash : UInt8 := 0x2F

def star : UInt8 := 0x2A

def newline : UInt8 := 0x0A

def backslash : UInt8 := 0x5C

/-- The byte of a quote. -/
def quote : Quote → UInt8
  | .double => 0x22
  | .single => 0x27

/-- The inside of a literal up to its closing quote: a backslash takes the
next byte with it, whatever that is, and no other byte is the quote. -/
inductive Body (q : Quote) : Bytes → Prop
  | nil : Body q []
  | plain {b : UInt8} {rest : Bytes} :
      b ≠ quote q → b ≠ backslash → Body q rest → Body q (b :: rest)
  | escaped {b : UInt8} {rest : Bytes} :
      Body q rest → Body q (backslash :: b :: rest)

/-- `Reads text regions`: the bytes of the text lie in these regions, if
the text starts in code. A comment body ends at the first terminator, so it
holds no newline in one form, and no star with a slash after it in the
other. -/
inductive Reads : Bytes → List Region → Prop
  | done : Reads [] []
  | code {b : UInt8} {rest : Bytes} {regions : List Region} :
      b ≠ slash → (∀ q, b ≠ quote q) → Reads rest regions →
      Reads (b :: rest) (.code :: regions)
  | literal (q : Quote) {body rest : Bytes} {regions : List Region} :
      Body q body → Reads rest regions →
      Reads (quote q :: (body ++ quote q :: rest))
        (.code :: (List.replicate (body.length + 1) .literal ++ regions))
  | openLiteral (q : Quote) {body : Bytes} :
      Body q body →
      Reads (quote q :: body) (.code :: List.replicate body.length .literal)
  | openEscape (q : Quote) {body : Bytes} :
      Body q body →
      Reads (quote q :: (body ++ [backslash]))
        (.code :: List.replicate (body.length + 1) .literal)
  | lineComment {body rest : Bytes} {regions : List Region} :
      newline ∉ body → Reads rest regions →
      Reads (slash :: slash :: (body ++ newline :: rest))
        (.code :: .code :: (List.replicate (body.length + 1) .comment ++ regions))
  | openLineComment {body : Bytes} :
      newline ∉ body →
      Reads (slash :: slash :: body)
        (.code :: .code :: List.replicate body.length .comment)
  | blockComment {body rest : Bytes} {regions : List Region} :
      ¬ [star, slash] <:+: body → Reads rest regions →
      Reads (slash :: star :: (body ++ star :: slash :: rest))
        (.code :: .code :: (List.replicate (body.length + 2) .comment ++ regions))
  | openBlockComment {body : Bytes} :
      ¬ [star, slash] <:+: body →
      Reads (slash :: star :: body)
        (.code :: .code :: List.replicate body.length .comment)
  | lone {b : UInt8} {rest : Bytes} {regions : List Region} :
      b ≠ slash → b ≠ star → Reads rest regions →
      Reads (slash :: b :: rest) (.code :: .code :: regions)
  | lastSlash : Reads [slash] [.code]

/-! ## Looking for the end -/

/-- What follows an open quote closes the literal, or never does, perhaps
with a backslash as the last byte. -/
theorem body_split (q : Quote) : ∀ text : Bytes,
    (∃ body rest, Body q body ∧ text = body ++ quote q :: rest) ∨
      Body q text ∨ ∃ body, Body q body ∧ text = body ++ [backslash]
  | [] => .inr (.inl .nil)
  | b :: rest => by
    by_cases hq : b = quote q
    · exact .inl ⟨[], rest, .nil, by simp [hq]⟩
    by_cases hb : b = backslash
    · subst hb
      cases rest with
      | nil => exact .inr (.inr ⟨[], .nil, rfl⟩)
      | cons c rest =>
        rcases body_split q rest with ⟨body, tail, hbody, rfl⟩ | hbody | ⟨body, hbody, rfl⟩
        · exact .inl ⟨_, tail, .escaped hbody, rfl⟩
        · exact .inr (.inl (.escaped hbody))
        · exact .inr (.inr ⟨_, .escaped hbody, rfl⟩)
    · rcases body_split q rest with ⟨body, tail, hbody, rfl⟩ | hbody | ⟨body, hbody, rfl⟩
      · exact .inl ⟨_, tail, .plain hq hb hbody, rfl⟩
      · exact .inr (.inl (.plain hq hb hbody))
      · exact .inr (.inr ⟨_, .plain hq hb hbody, rfl⟩)

/-- A star and slash come first somewhere, or nowhere. -/
theorem block_split (text : Bytes) :
    (∃ body rest, ¬ [star, slash] <:+: body ∧ text = body ++ star :: slash :: rest) ∨
      ¬ [star, slash] <:+: text := by
  induction text with
  | nil => exact .inr (by simp)
  | cons b text ih =>
    by_cases h : [star, slash] <+: b :: text
    · obtain ⟨rest, hrest⟩ := h
      exact .inl ⟨[], rest, by simp, by simpa using hrest.symm⟩
    · -- an infix of `b :: body` would be one of `body`, since it is no prefix
      rcases ih with ⟨body, rest, hbody, rfl⟩ | htext
      · refine .inl ⟨b :: body, rest, ?_, rfl⟩
        rw [List.infix_cons_iff]
        rintro (hpre | hin)
        · exact h (hpre.trans (List.prefix_append (b :: body) _))
        · exact hbody hin
      · refine .inr ?_
        rw [List.infix_cons_iff]
        exact not_or.mpr ⟨h, htext⟩

/-! ## Every text has a reading -/

section Existence

variable {rest : Bytes} (hshort : ∀ text : Bytes, text.length < rest.length →
  ∃ regions, Reads text regions)

include hshort

/-- The reading after an open quote. -/
theorem exists_reads_quote (q : Quote) : ∃ regions, Reads (quote q :: rest) regions := by
  rcases body_split q rest with ⟨body, tail, hbody, rfl⟩ | hbody | ⟨body, hbody, rfl⟩
  · obtain ⟨regions, h⟩ := hshort tail (by simp; omega)
    exact ⟨_, .literal q hbody h⟩
  · exact ⟨_, .openLiteral q hbody⟩
  · exact ⟨_, .openEscape q hbody⟩

/-- The reading after two slashes. -/
theorem exists_reads_line : ∃ regions, Reads (slash :: slash :: rest) regions := by
  by_cases hnl : newline ∈ rest
  · obtain ⟨body, tail, rfl, hbody⟩ := List.eq_append_cons_of_mem hnl
    obtain ⟨regions, h⟩ := hshort tail (by simp; omega)
    exact ⟨_, .lineComment hbody h⟩
  · exact ⟨_, .openLineComment hnl⟩

/-- The reading after a slash and a star. -/
theorem exists_reads_block : ∃ regions, Reads (slash :: star :: rest) regions := by
  rcases block_split rest with ⟨body, tail, hbody, rfl⟩ | hrest
  · obtain ⟨regions, h⟩ := hshort tail (by simp; omega)
    exact ⟨_, .blockComment hbody h⟩
  · exact ⟨_, .openBlockComment hrest⟩

end Existence

/-- **Every text has a reading.** -/
theorem exists_reads (text : Bytes) : ∃ regions, Reads text regions := by
  induction hn : text.length using Nat.strongRecOn generalizing text with
  | _ n ih =>
    subst hn
    -- what follows a construct is shorter than the text, so it has a reading
    have hshort : ∀ t : Bytes, t.length < text.length → ∃ regions, Reads t regions :=
      fun t ht => ih t.length ht t rfl
    match text with
    | [] => exact ⟨[], .done⟩
    | b :: rest =>
      by_cases hs : b = slash
      · subst hs
        match rest with
        | [] => exact ⟨_, .lastSlash⟩
        | c :: rest =>
          have hrest : ∀ t : Bytes, t.length < rest.length → ∃ regions, Reads t regions :=
            fun t ht => hshort t (by simp; omega)
          by_cases hcs : c = slash
          · subst hcs
            exact exists_reads_line hrest
          by_cases hct : c = star
          · subst hct
            exact exists_reads_block hrest
          · obtain ⟨regions, h⟩ := hshort rest (by simp only [List.length_cons]; omega)
            exact ⟨_, .lone hcs hct h⟩
      by_cases hq : ∃ q, b = quote q
      · obtain ⟨q, rfl⟩ := hq
        exact exists_reads_quote (fun t ht => hshort t (by simp; omega)) q
      · obtain ⟨regions, h⟩ := hshort rest (by simp)
        exact ⟨_, .code hs (not_exists.mp hq) h⟩

end Grammar

end KeywordSurvey.Lexer
