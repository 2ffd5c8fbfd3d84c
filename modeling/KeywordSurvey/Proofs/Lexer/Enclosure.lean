import KeywordSurvey.Proofs.Lexer.Cut

/-!
# Comments and literals add nothing

A whole comment or literal, from what opens it to what closes it
(`Grammar.Enclosure`), leads the machine from code back to code. Nothing is
counted in it, and nothing across its ends: what stands there is no letter. So
it can stand anywhere in the code of a text and adds nothing to what is counted
(`scan_enclosure`), whatever it holds.
-/

namespace KeywordSurvey

namespace Lexer

/-! ## Quiet stretches -/

/-- Nothing is counted at a byte that no keyword starts with. -/
theorem scanFrom_cons_of_not_leads {b : UInt8} (h : Keyword.leads b = false) (s : State)
    (rest : Bytes) : scanFrom s 0 (b :: rest) = scanFrom (s.next b) 0 rest :=
  scanFrom_cons_of_not_starts (.inr (by simp [Keyword.opening?, h]))

/-- Nothing is counted outside of code. -/
theorem scanFrom_eq_zero {s : State} {text : Bytes} (h : Region.code ∉ s.regions text) :
    scanFrom s 0 text = 0 := by
  ext k
  rw [get_scanFrom, PerKeyword.get_zero, Nat.zero_add, List.length_eq_zero_iff, occurrences,
    List.filter_eq_nil_iff]
  intro i _ hocc
  exact h (List.mem_of_getElem? (of_decide_eq_true hocc).1)

theorem State.after_append (s : State) (text rest : Bytes) :
    s.after (text ++ rest) = (s.after text).after rest := List.foldl_append

/-! ## Enclosures -/

namespace Grammar

/-- A whole comment or a whole literal. -/
inductive Enclosure : Bytes → Prop
  | lineComment {body : Bytes} :
      newline ∉ body → Enclosure (slash :: slash :: (body ++ [newline]))
  | blockComment {body : Bytes} :
      ¬ [star, slash] <:+: body → Enclosure (slash :: star :: (body ++ [star, slash]))
  | literal (q : Quote) {body : Bytes} :
      Body q body → Enclosure (quote q :: (body ++ [quote q]))

namespace Enclosure

variable {text : Bytes}

/-- No letter opens an enclosure. -/
theorem head (h : Enclosure text) : ∃ b rest, text = b :: rest ∧ b ∉ Keyword.letters := by
  cases h with
  | lineComment _ => exact ⟨_, _, rfl, by decide⟩
  | blockComment _ => exact ⟨_, _, rfl, by decide⟩
  | literal q _ => exact ⟨_, _, rfl, by cases q <;> decide⟩

/-- No letter closes an enclosure. -/
theorem last (h : Enclosure text) : ∃ b, text.getLast? = some b ∧ b ∉ Keyword.letters := by
  cases h with
  | @lineComment body _ =>
    exact ⟨newline, List.getLast?_concat (l := slash :: slash :: body), by decide⟩
  | @blockComment body _ => exact ⟨slash, by simp [List.getLast?_cons], by decide⟩
  | @literal q body _ =>
    exact ⟨quote q, List.getLast?_concat (l := quote q :: body), by cases q <;> decide⟩

open State in
/-- An enclosure leads from code to code. -/
theorem after (h : Enclosure text) : State.code.after text = .code := by
  cases h with
  | lineComment hbody =>
    have hin := (InLine.body hbody (s := State.lineComment) trivial).1
    rw [after_cons, code_slash, after_cons, slash_slash, after_append, after_cons, hin.newline,
      after_nil]
  | blockComment hbody =>
    have hin := (InBlock.body hbody (s := State.blockComment) trivial (by simp)).1
    rw [after_cons, code_slash, after_cons, slash_star, after_append, after_cons, hin.star,
      after_cons, blockStar_slash, after_nil]
  | literal q hbody =>
    rw [after_cons, code_quote, after_append, (literal_body hbody).1, after_cons, literal_quote,
      after_nil]

open State in
/-- Nothing is counted in an enclosure. -/
theorem scan (h : Enclosure text) : Lexer.scan text = 0 := by
  cases h with
  | lineComment hbody =>
    obtain ⟨hin, hregions⟩ := InLine.body hbody (s := State.lineComment) trivial
    rw [Lexer.scan, scanFrom_cons_of_not_leads rfl, code_slash, scanFrom_cons_of_not_leads rfl,
      slash_slash]
    apply scanFrom_eq_zero
    simp [regions_append, hregions, hin.region]
  | blockComment hbody =>
    obtain ⟨hin, hregions⟩ := InBlock.body hbody (s := State.blockComment) trivial (by simp)
    rw [Lexer.scan, scanFrom_cons_of_not_leads rfl, code_slash, scanFrom_cons_of_not_leads rfl,
      slash_star]
    apply scanFrom_eq_zero
    simp [regions_append, hregions, hin.region, hin.star,
      show State.blockStar.region = .comment from rfl]
  | literal q hbody =>
    obtain ⟨hin, hregions⟩ := literal_body hbody
    rw [Lexer.scan, scanFrom_cons_of_not_leads (by cases q <;> rfl), code_quote]
    apply scanFrom_eq_zero
    simp [regions_append, hregions, hin, State.region]

end Enclosure

end Grammar

/-! ## Enclosures in a text -/

theorem crossing_of_head {b : UInt8} (hb : b ∉ Keyword.letters) (k : Keyword)
    (text rest : Bytes) : crossing k text (b :: rest) = [] := by
  rw [List.eq_nil_iff_forall_not_mem]
  intro i hi
  obtain ⟨-, c, hc, hhead⟩ := letters_of_mem_crossing hi
  cases hhead
  exact hb hc

theorem crossing_of_last {b : UInt8} {text : Bytes} (hlast : text.getLast? = some b)
    (hb : b ∉ Keyword.letters) (k : Keyword) (rest : Bytes) : crossing k text rest = [] := by
  rw [List.eq_nil_iff_forall_not_mem]
  intro i hi
  obtain ⟨⟨c, hc, hlast'⟩, -⟩ := letters_of_mem_crossing hi
  cases hlast.symm.trans hlast'
  exact hb hc

/-- **Comments and literals add nothing.** Where a text is in code, a whole
comment or literal may stand, whatever it holds: the text goes on in code, and
what is counted is what is counted without it. -/
theorem scan_enclosure {before enclosure : Bytes} (after : Bytes)
    (hcode : State.code.after before = .code) (henclosure : Grammar.Enclosure enclosure) :
    State.code.after (before ++ enclosure) = .code ∧
      scan (before ++ enclosure ++ after) = scan before + scan after := by
  constructor
  · rw [State.after_append, hcode, henclosure.after]
  · ext k
    obtain ⟨b, rest, rfl, hb⟩ := henclosure.head
    obtain ⟨c, hlast, hc⟩ := henclosure.last
    have hfirst : (scan (before ++ (b :: rest ++ after))).get k
        = (scan before).get k + (scan (b :: rest ++ after)).get k := by
      rw [get_scan_append, hcode, List.cons_append, crossing_of_head hb]
      rfl
    have hsecond : (scan (b :: rest ++ after)).get k = (scan after).get k := by
      rw [get_scan_append, henclosure.after, henclosure.scan, crossing_of_last hlast hc,
        PerKeyword.get_zero, Nat.zero_add]
      rfl
    rw [List.append_assoc, hfirst, hsecond, PerKeyword.get_add]

/-- A comment with an open quote and a star before its end, next to a slash that
opens nothing. -/
theorem scan_enclosure_apostrophe :
    State.code.after (Utf8.ofString "a/'try") = .code ∧
      Grammar.Enclosure (Utf8.ofString "/*don't try**/") ∧
      scan (Utf8.ofString "a/'try/*don't try**/catch") = ⟨0, 0, 1, 1⟩ := by
  have hcode : State.code.after (Utf8.ofString "a/'try") = .code := by decide
  have henclosure : Grammar.Enclosure (Utf8.ofString "/*don't try**/") :=
    @Grammar.Enclosure.blockComment (Utf8.ofString "don't try*") (by decide)
  refine ⟨hcode, henclosure, ?_⟩
  exact (scan_enclosure (Utf8.ofString "catch") hcode henclosure).2.trans (by decide)

end Lexer

end KeywordSurvey
