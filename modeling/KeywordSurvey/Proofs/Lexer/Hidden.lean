import KeywordSurvey.Proofs.Lexer.Overlap

/-!
# What comments and literals hide

A scan looks for keywords where the machine is in code, but it compares bytes
that the machine has yet to come to. They are in code too: no letter leads the
machine out of it (`codeAt_of_occurrence`). So what is counted hangs on the
bytes in code and on nothing else (`scan_hidden`); a byte in a comment or a
literal matters only for where that ends.
-/

namespace KeywordSurvey

namespace Lexer

namespace State

/-! ## Words in code -/

theorem regions_drop (s : State) (text : Bytes) {i : Nat} (hi : i ≤ text.length) :
    (s.regions text).drop i = (s.after (text.take i)).regions (text.drop i) := by
  have hlength : (s.regions (text.take i)).length = i := by
    rw [length_regions, List.length_take, Nat.min_eq_left hi]
  rw [← List.take_append_drop i text, regions_append, List.take_append_drop]
  exact List.drop_left' hlength

theorem ofByte_letter {b : UInt8} (hb : b ∈ Keyword.letters) : Mark.ofByte b = .other := by
  have hall : ∀ b ∈ Keyword.letters, Mark.ofByte b = .other := by decide +kernel
  exact hall b hb

/-- A letter in code leads to code, after a slash as well. -/
theorem next_letter {s : State} {b : UInt8} (hs : s.region = .code) (hb : b ∈ Keyword.letters) :
    s.next b = code := by
  rw [next, ofByte_letter hb]
  cases s <;> first | rfl | cases hs

/-- A word of letters that starts in code is in code to its end. -/
theorem regions_word {word : Bytes} (hword : ∀ b ∈ word, b ∈ Keyword.letters) :
    ∀ {s : State} {text : Bytes}, s.region = .code → word <+: text →
      ∀ j < word.length, (s.regions text)[j]? = some .code := by
  induction word with
  | nil => exact fun _ _ j hj => absurd hj (Nat.not_lt_zero j)
  | cons b word ih =>
    intro s text hs hstarts j hj
    obtain ⟨hb, hword⟩ := List.forall_mem_cons.mp hword
    cases text with
    | nil => simp at hstarts
    | cons c text =>
      obtain ⟨rfl, hrest⟩ := List.cons_prefix_cons.mp hstarts
      rw [regions_cons, next_letter hs hb]
      cases j with
      | zero => exact congrArg some hs
      | succ j => exact ih hword rfl hrest j (Nat.lt_of_succ_lt_succ hj)

end State

/-! ## Positions in code -/

/-- The position of the text is in code. -/
def CodeAt (text : Bytes) (i : Nat) : Prop := (State.code.regions text)[i]? = some .code

instance (text : Bytes) (i : Nat) : Decidable (CodeAt text i) :=
  inferInstanceAs (Decidable (_ = _))

theorem CodeAt.lt_length {text : Bytes} {i : Nat} (h : CodeAt text i) : i < text.length := by
  have hlength := (List.getElem?_eq_some_iff.mp h).1
  rwa [State.length_regions] at hlength

theorem mem_occurrences_iff {k : Keyword} {text : Bytes} {i : Nat} :
    i ∈ occurrences k text (State.code.regions text) ↔
      i < text.length ∧ CodeAt text i ∧ k.bytes <+: text.drop i := by
  rw [occurrences, List.mem_filter, List.mem_range, decide_eq_true_iff]
  rfl

/-- **What is counted lies in code**, from its first byte to its last. -/
theorem codeAt_of_occurrence {k : Keyword} {text : Bytes} {i : Nat} (hcode : CodeAt text i)
    (hstarts : k.bytes <+: text.drop i) {j : Nat} (hj : j < k.bytes.length) :
    CodeAt text (i + j) := by
  have hi : i < text.length := hcode.lt_length
  -- the scan goes on from `i` in the state that it has come to
  have hregions := State.code.regions_drop text hi.le
  have hstart : (State.code.after (text.take i)).region = .code := by
    have hfirst : ((State.code.regions text).drop i)[0]? = some .code := by
      rwa [List.getElem?_drop]
    obtain ⟨b, rest, hrest⟩ := List.exists_cons_of_ne_nil (List.drop_eq_nil_iff.not.mpr hi.not_ge)
    rw [hregions, hrest, State.regions_cons] at hfirst
    exact Option.some.inj hfirst
  have hword := State.regions_word (fun _ => Keyword.mem_letters) hstart hstarts j hj
  rwa [← hregions, List.getElem?_drop] at hword

/-! ## Texts that are alike in code -/

/-- The texts are in code at the same positions, and have the same bytes
there. -/
structure AlikeInCode (text other : Bytes) : Prop where
  length : text.length = other.length
  codeAt : ∀ i, CodeAt text i ↔ CodeAt other i
  byte : ∀ i, CodeAt text i → text[i]? = other[i]?

namespace AlikeInCode

variable {text other : Bytes}

theorem of_regions (hregions : State.code.regions text = State.code.regions other)
    (hbytes : ∀ i < text.length, CodeAt text i → text[i]? = other[i]?) :
    AlikeInCode text other where
  length := by simpa using congrArg List.length hregions
  codeAt i := by rw [CodeAt, hregions, CodeAt]
  byte i hi := hbytes i hi.lt_length hi

theorem symm (h : AlikeInCode text other) : AlikeInCode other text where
  length := h.length.symm
  codeAt i := (h.codeAt i).symm
  byte i hi := (h.byte i ((h.codeAt i).mpr hi)).symm

/-- A keyword that is counted in one text stands in the other one. -/
theorem starts (h : AlikeInCode text other) {k : Keyword} {i : Nat} (hcode : CodeAt text i)
    (hstarts : k.bytes <+: text.drop i) : k.bytes <+: other.drop i := by
  rw [List.prefix_iff_getElem?] at hstarts ⊢
  intro j hj
  have hin : CodeAt text (i + j) :=
    codeAt_of_occurrence hcode (List.prefix_iff_getElem?.mpr hstarts) hj
  rw [List.getElem?_drop, ← h.byte (i + j) hin, ← List.getElem?_drop]
  exact hstarts j hj

theorem occurrences_eq (h : AlikeInCode text other) (k : Keyword) :
    occurrences k text (State.code.regions text)
      = occurrences k other (State.code.regions other) := by
  unfold occurrences
  rw [h.length]
  refine List.filter_congr fun i _ => decide_eq_decide.mpr ⟨?_, ?_⟩
  · rintro ⟨hcode, hstarts⟩
    exact ⟨(h.codeAt i).mp hcode, h.starts hcode hstarts⟩
  · rintro ⟨hcode, hstarts⟩
    exact ⟨(h.codeAt i).mpr hcode, h.symm.starts hcode hstarts⟩

end AlikeInCode

theorem get_scan (k : Keyword) (text : Bytes) :
    (scan text).get k = (occurrences k text (State.code.regions text)).length := by
  rw [scan, get_scanFrom, PerKeyword.get_zero, Nat.zero_add]

/-- **Hidden bytes have no influence.** Texts that are in code at the same
positions and have the same bytes there have the same counts; the keywords even
stand at the same positions. And whatever is counted in a text lies in code as
a whole. -/
theorem scan_hidden :
    (∀ {text other : Bytes}, AlikeInCode text other →
      scan text = scan other ∧
        ∀ k, occurrences k text (State.code.regions text)
          = occurrences k other (State.code.regions other)) ∧
    ∀ (text : Bytes) (k : Keyword),
      (scan text).get k = (occurrences k text (State.code.regions text)).length ∧
        ∀ i ∈ occurrences k text (State.code.regions text), ∀ j < k.bytes.length,
          CodeAt text (i + j) := by
  constructor
  · intro text other h
    refine ⟨PerKeyword.ext_get fun k => ?_, h.occurrences_eq⟩
    rw [get_scan, get_scan, h.occurrences_eq]
  · intro text k
    refine ⟨get_scan k text, fun i hi j hj => ?_⟩
    obtain ⟨-, hcode, hstarts⟩ := mem_occurrences_iff.mp hi
    exact codeAt_of_occurrence hcode hstarts hj

/-- A keyword in a comment, and quotes in its place. -/
theorem scan_hidden_comment :
    AlikeInCode (Utf8.ofString "/*try*/catch") (Utf8.ofString "/*'y'*/catch") ∧
      scan (Utf8.ofString "/*try*/catch") = scan (Utf8.ofString "/*'y'*/catch") ∧
      CodeAt (Utf8.ofString "/*try*/catch") (7 + 4) := by
  have halike : AlikeInCode (Utf8.ofString "/*try*/catch") (Utf8.ofString "/*'y'*/catch") :=
    .of_regions (by decide) (by decide)
  refine ⟨halike, (scan_hidden.1 halike).1, ?_⟩
  exact (scan_hidden.2 (Utf8.ofString "/*try*/catch") .catchWord).2 7 (by decide) 4 (by decide)

end Lexer

end KeywordSurvey
