import KeywordSurvey.Lexer.Scan
import KeywordSurvey.Proofs.Lexer.Machine
import KeywordSurvey.Proofs.Lexer.Search

/-!
# Occurrences of keywords

What a scan counts, said with positions: a keyword occurs at a position of
the text if the position lies in code and the rest of the text starts with
the keyword (`occurrences`). A scan finds as many of each keyword as there
are such positions (`get_scan_eq_length_occurrences`), where code is what the
grammar says.
-/

namespace KeywordSurvey

namespace Lexer

/-! ## Positions -/

/-- The positions in code at which the keyword starts. -/
def occurrences (k : Keyword) (text : Bytes) (regions : List Region) : List Nat :=
  (List.range text.length).filter fun i =>
    decide (regions[i]? = some .code ∧ k.bytes <+: text.drop i)

theorem length_occurrences_cons (k : Keyword) (b : UInt8) (rest : Bytes) (r : Region)
    (regions : List Region) :
    (occurrences k (b :: rest) (r :: regions)).length
      = (if r = .code ∧ k.bytes <+: b :: rest then 1 else 0)
        + (occurrences k rest regions).length := by
  simp only [occurrences, List.length_cons, List.range_succ_eq_map, List.filter_cons,
    List.filter_map, List.getElem?_cons_zero, List.drop_zero, Option.some.injEq]
  by_cases h : r = .code ∧ k.bytes <+: b :: rest
  · simp [h, Function.comp_def, Nat.add_comm]
  · simp [h, Function.comp_def]

theorem isCode_iff (s : State) : s.isCode = true ↔ s.region = .code := by
  simp [State.isCode]

/-- One position adds to a keyword if the machine is in code there and the
rest starts with the keyword. -/
theorem get_scanFrom_cons (k : Keyword) (s : State) (counts : PerKeyword Nat) (b : UInt8)
    (rest : Bytes) :
    ∃ counts', scanFrom s counts (b :: rest) = scanFrom (s.next b) counts' rest ∧
      counts'.get k = counts.get k
        + (if s.region = .code ∧ k.bytes <+: b :: rest then 1 else 0) := by
  refine ⟨_, rfl, ?_⟩
  by_cases hcode : s.region = .code
  · rw [if_pos ((isCode_iff s).mpr hcode)]
    cases hopen : Keyword.opening? (b :: rest) with
    | none =>
      have hk : ¬ k.bytes <+: b :: rest := fun h => by
        rw [Keyword.opening?_eq_some_iff.mpr h] at hopen
        cases hopen
      simp [hk]
    | some j =>
      -- no other keyword starts here
      have hj : j.bytes <+: b :: rest := Keyword.opening?_eq_some_iff.mp hopen
      have hjk : j = k ↔ k.bytes <+: b :: rest :=
        ⟨fun h => h ▸ hj, fun h => Keyword.eq_of_starts hj h⟩
      simp [PerKeyword.get_record, hcode, hjk]
  · rw [if_neg (mt (isCode_iff s).mp hcode)]
    simp [hcode]

/-- The scan from any state counts the positions that are code to the
machine. -/
theorem get_scanFrom (k : Keyword) (text : Bytes) : ∀ (s : State) (counts : PerKeyword Nat),
    (scanFrom s counts text).get k
      = counts.get k + (occurrences k text (s.regions text)).length := by
  induction text with
  | nil => intro s counts; rfl
  | cons b rest ih =>
    intro s counts
    obtain ⟨counts', hstep, hget⟩ := get_scanFrom_cons k s counts b rest
    rw [hstep, ih, hget, State.regions_cons, length_occurrences_cons]
    omega

/-- **A scan counts the occurrences in code.** Every text has one reading by
the grammar, and what the scan answers for a keyword is the number of
positions that this reading puts in code and at which the keyword starts. -/
theorem get_scan_eq_length_occurrences (text : Bytes) :
    ∃ regions, Grammar.Reads text regions ∧
      (∀ others, Grammar.Reads text others → others = regions) ∧
      regions.length = text.length ∧
      ∀ k, (scan text).get k = (occurrences k text regions).length := by
  refine ⟨State.code.regions text, Grammar.reads_regions text, fun others h => ?_,
    State.length_regions _ text, fun k => ?_⟩
  · exact Grammar.reads_unique (Grammar.reads_regions text) h
  · simp [scan, get_scanFrom]

end Lexer

end KeywordSurvey
