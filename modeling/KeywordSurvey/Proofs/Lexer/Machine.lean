import KeywordSurvey.Proofs.Lexer.Grammar

/-!
# The machine follows the grammar

The regions that the lexical machine goes through are the reading of the
text by the grammar (`regions_eq_of_reads`), so a text has only one reading
(`reads_unique`). The machine follows quotes inside comments, which the
grammar does not know of: a state in a comment is tied to the comment it is
in (`InLine`, `InBlock`) and not to the quotes met there.
-/

namespace KeywordSurvey.Lexer

open Grammar

/-! ## Bytes and their marks -/

@[simp] theorem ofByte_slash : Mark.ofByte slash = .slash := rfl

@[simp] theorem ofByte_star : Mark.ofByte star = .star := rfl

@[simp] theorem ofByte_newline : Mark.ofByte newline = .newline := rfl

@[simp] theorem ofByte_backslash : Mark.ofByte backslash = .backslash := rfl

@[simp] theorem ofByte_quote (q : Quote) : Mark.ofByte (quote q) = .quote q := by
  cases q <;> rfl

/-- The byte that has the mark. -/
def Mark.byte : Mark → UInt8
  | .slash => Grammar.slash
  | .star => Grammar.star
  | .newline => Grammar.newline
  | .backslash => Grammar.backslash
  | .quote q => Grammar.quote q
  | .other => 0

theorem byte_ofByte {b : UInt8} (h : Mark.ofByte b ≠ .other) : (Mark.ofByte b).byte = b := by
  unfold Mark.ofByte at h ⊢
  repeat' split
  all_goals simp_all [Mark.byte, Grammar.slash, Grammar.star, newline, backslash, quote]

/-- A mark stands for one byte, unless it is none of those that matter. -/
theorem eq_of_ofByte {b c : UInt8} (h : Mark.ofByte b = Mark.ofByte c)
    (hc : Mark.ofByte c ≠ .other) : b = c := by
  rw [← byte_ofByte hc, ← h, byte_ofByte (h ▸ hc)]

theorem ofByte_ne {b c : UInt8} (h : b ≠ c) (hc : Mark.ofByte c ≠ .other) :
    Mark.ofByte b ≠ Mark.ofByte c :=
  fun hbc => h (eq_of_ofByte hbc hc)

namespace State

/-! ## The regions of a text -/

/-- The region of each byte of a text that the machine reaches in `s`. -/
def regions (s : State) (text : Bytes) : List Region :=
  ((s.trace text).dropLast).map region

@[simp] theorem regions_nil (s : State) : s.regions [] = [] := rfl

theorem trace_ne_nil (s : State) (text : Bytes) : s.trace text ≠ [] := by
  cases text <;> simp [trace]

@[simp] theorem regions_cons (s : State) (b : UInt8) (rest : Bytes) :
    s.regions (b :: rest) = s.region :: (s.next b).regions rest := by
  simp [regions, trace, List.dropLast_cons_of_ne_nil (trace_ne_nil _ rest)]

@[simp] theorem after_nil (s : State) : s.after [] = s := rfl

@[simp] theorem after_cons (s : State) (b : UInt8) (rest : Bytes) :
    s.after (b :: rest) = (s.next b).after rest := rfl

theorem regions_append (s : State) (text rest : Bytes) :
    s.regions (text ++ rest) = s.regions text ++ (s.after text).regions rest := by
  induction text generalizing s with
  | nil => rfl
  | cons b text ih => simp [ih]

@[simp] theorem length_regions (s : State) (text : Bytes) :
    (s.regions text).length = text.length := by
  induction text generalizing s with
  | nil => rfl
  | cons b text ih => simp [ih]

/-! ## One byte -/

@[simp] theorem code_slash : code.next Grammar.slash = slash := rfl

@[simp] theorem code_quote (q : Quote) : code.next (quote q) = literal q false := by
  simp [next, step]

theorem code_other {b : UInt8} (hs : b ≠ Grammar.slash) (hq : ∀ q, b ≠ quote q) :
    code.next b = code := by
  have h1 : Mark.ofByte b ≠ .slash := ofByte_ne hs (by simp)
  have h2 : ∀ q, Mark.ofByte b ≠ .quote q := fun q =>
    ofByte_quote q ▸ ofByte_ne (hq q) (by simp)
  unfold next
  cases hb : Mark.ofByte b <;> simp_all [step]

@[simp] theorem slash_slash : slash.next Grammar.slash = lineComment := rfl

@[simp] theorem slash_star : slash.next star = blockComment := rfl

theorem slash_other {b : UInt8} (hs : b ≠ Grammar.slash) (ht : b ≠ star) :
    slash.next b = code := by
  have h1 : Mark.ofByte b ≠ .slash := ofByte_ne hs (by simp)
  have h2 : Mark.ofByte b ≠ .star := ofByte_ne ht (by simp)
  unfold next
  cases hb : Mark.ofByte b <;> simp_all [step]

/-! ## Literals -/

theorem literal_plain {q : Quote} {b : UInt8} (hq : b ≠ quote q) (hb : b ≠ backslash) :
    (literal q false).next b = literal q false := by
  have h1 : Mark.ofByte b ≠ .quote q := ofByte_quote q ▸ ofByte_ne hq (by simp)
  have h2 : Mark.ofByte b ≠ .backslash := ofByte_ne hb (by simp)
  unfold next
  cases h : Mark.ofByte b <;> simp_all [step]
  exact fun hr => h1 hr.symm

theorem literal_escaped (q : Quote) (b : UInt8) :
    (literal q true).next b = literal q false := by
  unfold next
  cases Mark.ofByte b <;> rfl

@[simp] theorem literal_backslash (q : Quote) :
    (literal q false).next backslash = literal q true := by simp [next, step]

@[simp] theorem literal_quote (q : Quote) : (literal q false).next (quote q) = code := by
  simp [next, step]

/-- The machine stays in the literal to the end of its body. -/
theorem literal_body {q : Quote} {body : Bytes} (h : Body q body) :
    (literal q false).after body = literal q false ∧
      (literal q false).regions body = List.replicate body.length .literal := by
  induction h with
  | nil => exact ⟨rfl, rfl⟩
  | plain hq hb _ ih =>
    rw [after_cons, regions_cons, literal_plain hq hb, ih.1, ih.2]
    exact ⟨rfl, rfl⟩
  | escaped _ ih =>
    rw [after_cons, after_cons, regions_cons, regions_cons, literal_backslash,
      literal_escaped, ih.1, ih.2]
    exact ⟨rfl, rfl⟩

/-! ## Comments that end with the line -/

/-- The machine is in a comment that ends with the line. -/
def InLine : State → Prop
  | lineComment | lineQuote _ _ => True
  | _ => False

theorem InLine.region {s : State} (h : s.InLine) : s.region = .comment := by
  cases s <;> first | rfl | exact h.elim

theorem InLine.newline {s : State} (h : s.InLine) : s.next newline = code := by
  cases s <;> first | rfl | exact h.elim

theorem InLine.next {s : State} (h : s.InLine) {b : UInt8} (hb : b ≠ Grammar.newline) :
    (s.next b).InLine := by
  have hm : Mark.ofByte b ≠ .newline := ofByte_ne hb (by simp)
  -- quotes lead from one state of the comment to another, and not out of it
  unfold State.next
  cases s with
  | lineComment => cases hm' : Mark.ofByte b <;> simp_all [step, InLine]
  | lineQuote q escaped =>
    cases escaped <;> cases hm' : Mark.ofByte b <;> simp_all [step, InLine]
    next r => by_cases hr : q = r <;> simp [hr]
  | _ => exact h.elim

/-- Without a newline the machine stays in the comment. -/
theorem InLine.body {body : Bytes} (hbody : Grammar.newline ∉ body) :
    ∀ {s : State}, s.InLine →
      (s.after body).InLine ∧ s.regions body = List.replicate body.length .comment := by
  induction body with
  | nil => exact fun h => ⟨h, rfl⟩
  | cons b body ih =>
    intro s h
    rw [List.mem_cons, not_or] at hbody
    obtain ⟨hafter, hregions⟩ := ih hbody.2 (h.next (Ne.symm hbody.1))
    refine ⟨hafter, ?_⟩
    rw [regions_cons, h.region, hregions]
    rfl

/-! ## Comments that end with a star and a slash -/

/-- The machine is in a comment that ends with a star and a slash. -/
def InBlock : State → Prop
  | blockComment | blockStar | blockQuote _ _ => True
  | _ => False

theorem InBlock.region {s : State} (h : s.InBlock) : s.region = .comment := by
  cases s <;> first | rfl | exact h.elim

/-- A star is remembered, with a quote open or not. -/
theorem InBlock.star {s : State} (h : s.InBlock) : s.next star = blockStar := by
  cases s <;> first | rfl | exact h.elim

@[simp] theorem blockStar_slash : blockStar.next Grammar.slash = code := rfl

/-- Only a slash after a star leaves the comment, and only a star leads to
the state after a star. -/
theorem InBlock.next {s : State} (h : s.InBlock) {b : UInt8}
    (hb : s = blockStar → b ≠ Grammar.slash) :
    (s.next b).InBlock ∧ (s.next b = blockStar → b = Grammar.star) := by
  have hstar : Mark.ofByte b = .star → b = Grammar.star := fun hm =>
    eq_of_ofByte (hm.trans ofByte_star.symm) (by simp)
  unfold State.next
  cases s with
  | blockComment => cases hm : Mark.ofByte b <;> simp_all [step, InBlock]
  | blockStar =>
    have hs : Mark.ofByte b ≠ .slash := ofByte_ne (hb rfl) (by simp)
    cases hm : Mark.ofByte b <;> simp_all [step, InBlock]
  | blockQuote q escaped =>
    cases escaped <;> cases hm : Mark.ofByte b <;> simp_all [step, InBlock]
    next r => by_cases hr : q = r <;> simp [hr]
  | _ => exact h.elim

/-- Without a star and a slash the machine stays in the comment. If it has
just seen a star, the body must not start with a slash. -/
theorem InBlock.body {body : Bytes} (hbody : ¬ [Grammar.star, Grammar.slash] <:+: body) :
    ∀ {s : State}, s.InBlock → (s = blockStar → ¬ [Grammar.slash] <+: body) →
      (s.after body).InBlock ∧ s.regions body = List.replicate body.length .comment := by
  induction body with
  | nil => exact fun h _ => ⟨h, rfl⟩
  | cons b body ih =>
    intro s h hs
    rw [List.infix_cons_iff, not_or] at hbody
    obtain ⟨hin, hstar⟩ := h.next (b := b) fun hss hb => hs hss (by simp [hb])
    -- a star that is remembered stands before the rest of the body
    have hnext : s.next b = blockStar → ¬ [Grammar.slash] <+: body := by
      intro hb hpre
      rw [hstar hb] at hbody
      exact hbody.1 (List.cons_prefix_cons.mpr ⟨rfl, hpre⟩)
    obtain ⟨hafter, hregions⟩ := ih hbody.2 hin hnext
    refine ⟨hafter, ?_⟩
    rw [regions_cons, h.region, hregions]
    rfl

end State

/-! ## The reading -/

namespace Grammar

open State in
/-- **The machine goes through the regions of the grammar.** -/
theorem regions_eq_of_reads {text : Bytes} {regions : List Region} (h : Reads text regions) :
    State.code.regions text = regions := by
  induction h with
  | done => rfl
  | code hs hq _ ih =>
    rw [regions_cons, code_other hs hq, ih]
    rfl
  | literal q hbody _ ih =>
    -- the closing quote belongs to the literal and leads back to code
    obtain ⟨hafter, hregions⟩ := literal_body hbody
    rw [regions_cons, code_quote, regions_append, hregions, hafter, regions_cons,
      literal_quote, ih, List.replicate_succ', List.append_assoc]
    rfl
  | openLiteral q hbody =>
    rw [regions_cons, code_quote, (literal_body hbody).2]
    rfl
  | openEscape q hbody =>
    obtain ⟨hafter, hregions⟩ := literal_body hbody
    rw [regions_cons, code_quote, regions_append, hregions, hafter, List.replicate_succ']
    rfl
  | lineComment hbody _ ih =>
    obtain ⟨hafter, hregions⟩ := InLine.body hbody (s := State.lineComment) trivial
    rw [regions_cons, code_slash, regions_cons, slash_slash, regions_append, hregions,
      regions_cons, hafter.newline, hafter.region, ih, List.replicate_succ',
      List.append_assoc]
    rfl
  | openLineComment hbody =>
    rw [regions_cons, code_slash, regions_cons, slash_slash,
      (InLine.body hbody (s := State.lineComment) trivial).2]
    rfl
  | blockComment hbody _ ih =>
    obtain ⟨hafter, hregions⟩ :=
      InBlock.body hbody (s := State.blockComment) trivial (by simp)
    rw [regions_cons, code_slash, regions_cons, slash_star, regions_append, hregions,
      regions_cons, hafter.star, hafter.region, regions_cons, blockStar_slash, ih,
      List.replicate_succ', List.replicate_succ', List.append_assoc, List.append_assoc]
    rfl
  | openBlockComment hbody =>
    rw [regions_cons, code_slash, regions_cons, slash_star,
      (InBlock.body hbody (s := State.blockComment) trivial (by simp)).2]
    rfl
  | lone hs ht _ ih =>
    rw [regions_cons, code_slash, regions_cons, slash_other hs ht, ih]
    rfl
  | lastSlash => rfl

/-- A text has one reading. -/
theorem reads_unique {text : Bytes} {regions others : List Region}
    (h : Reads text regions) (k : Reads text others) : others = regions :=
  (regions_eq_of_reads k).symm.trans (regions_eq_of_reads h)

/-- The regions that the machine goes through are a reading. -/
theorem reads_regions (text : Bytes) : Reads text (State.code.regions text) := by
  obtain ⟨regions, h⟩ := exists_reads text
  rw [regions_eq_of_reads h]
  exact h

end Grammar

end KeywordSurvey.Lexer
