import KeywordSurvey.Proofs.Lexer.Overlap
import Mathlib.Algebra.BigOperators.Group.List.Basic
import Mathlib.Algebra.GroupWithZero.Nat
import Mathlib.Data.List.Nodup

/-!
# Cutting a text

A scan looks ahead of the byte it takes, so a text that is cut in two loses the
keywords that the cut runs through (`crossing`). It loses nothing else, if the
second part is scanned from the state that the first one leads to, and it loses
at most one keyword (`get_scan_append`).
-/

namespace KeywordSurvey

namespace Lexer

/-! ## Scanning on -/

/-- What has been counted before does not matter for what is counted. -/
theorem scanFrom_eq_add (s : State) (counts : PerKeyword Nat) (text : Bytes) :
    scanFrom s counts text = counts + scanFrom s 0 text := by
  ext k
  rw [PerKeyword.get_add, get_scanFrom, get_scanFrom, PerKeyword.get_zero, Nat.zero_add]

/-- At a position a keyword is counted, or nothing is. -/
theorem counted_or_not (s : State) (text : Bytes) :
    (s.isCode = true ∧ ∃ k : Keyword, k.bytes <+: text) ∨
      (s.isCode = false ∨ Keyword.opening? text = none) := by
  by_cases h : s.isCode = true ∧ ∃ k : Keyword, k.bytes <+: text
  · exact .inl h
  · rw [not_and_or, not_exists] at h
    exact .inr (h.imp Bool.eq_false_iff.mpr Keyword.opening?_eq_none_iff.mpr)

/-- One byte at which a keyword is counted. -/
theorem scanFrom_cons_of_starts {s : State} {k : Keyword} {b : UInt8} {rest : Bytes}
    (hcode : s.isCode = true) (hk : k.bytes <+: b :: rest) :
    scanFrom s 0 (b :: rest) = (scanFrom (s.next b) 0 rest).record k := by
  rw [scanFrom, if_pos hcode, Keyword.opening?_eq_some_iff.mpr hk]
  dsimp only
  rw [scanFrom_eq_add]
  ext j
  rw [PerKeyword.get_add, PerKeyword.get_record, PerKeyword.get_record, PerKeyword.get_zero]
  omega

/-- One byte at which nothing is counted. -/
theorem scanFrom_cons_of_not_starts {s : State} {b : UInt8} {rest : Bytes}
    (h : s.isCode = false ∨ Keyword.opening? (b :: rest) = none) :
    scanFrom s 0 (b :: rest) = scanFrom (s.next b) 0 rest := by
  rw [scanFrom]
  rcases h with h | h
  · rw [h, if_neg Bool.false_ne_true]
  · rw [h, ite_self]

/-- The occurrences of a keyword in the first of two texts that follow each
other, and in the second one. -/
theorem occurrences_append (k : Keyword) (a b : Bytes) {before after : List Region}
    (hlength : before.length = a.length) :
    occurrences k (a ++ b) (before ++ after)
      = ((List.range a.length).filter fun i =>
          decide (before[i]? = some .code ∧ k.bytes <+: a.drop i ++ b))
        ++ (occurrences k b after).map (a.length + ·) := by
  unfold occurrences
  rw [List.length_append, List.range_add, List.filter_append, List.filter_map]
  congr 1
  · refine List.filter_congr fun i hi => ?_
    have hi : i < a.length := List.mem_range.mp hi
    rw [List.getElem?_append_left (by omega), List.drop_append_of_le_length (by omega)]
  · refine congrArg (List.map _) (List.filter_congr fun i _ => ?_)
    rw [Function.comp_apply, List.drop_length_add_append, ← hlength,
      List.getElem?_append_right (by omega), Nat.add_sub_cancel_left]

/-! ## What a cut runs through -/

/-- The occurrences of a keyword that start before the cut between two texts
and end behind it. -/
def crossing (k : Keyword) (a b : Bytes) : List Nat :=
  (occurrences k (a ++ b) (State.code.regions (a ++ b))).filter fun i =>
    decide (i < a.length ∧ a.length < i + k.bytes.length)

theorem mem_crossing {k : Keyword} {a b : Bytes} {i : Nat} (h : i ∈ crossing k a b) :
    k.bytes <+: a.drop i ++ b ∧ i < a.length ∧ a.length < i + k.bytes.length := by
  obtain ⟨hocc, hcut⟩ := List.mem_filter.mp h
  obtain ⟨hi, hend⟩ := of_decide_eq_true hcut
  have hstart := of_decide_eq_true (List.mem_filter.mp hocc).2
  rw [List.drop_append_of_le_length (by omega)] at hstart
  exact ⟨hstart.2, hi, hend⟩

/-- A keyword that starts in the first text and does not end in the second one
is a keyword of the first text. -/
theorem prefix_append_iff {k : Keyword} {a b : Bytes} {i : Nat} (hi : i < a.length) :
    (k.bytes <+: a.drop i ++ b ∧ ¬ (i < a.length ∧ a.length < i + k.bytes.length)) ↔
      k.bytes <+: a.drop i := by
  have hlength : (a.drop i).length = a.length - i := List.length_drop
  constructor
  · rintro ⟨hstart, hend⟩
    exact List.prefix_of_prefix_length_le hstart (List.prefix_append _ _) (by omega)
  · intro h
    have hle : k.bytes.length ≤ (a.drop i).length := h.length_le
    exact ⟨h.trans (List.prefix_append _ _), by omega⟩

/-- **A cut loses what it runs through, and nothing else.** -/
theorem get_scan_append (k : Keyword) (a b : Bytes) :
    (scan (a ++ b)).get k
      = (scan a).get k + (scanFrom (State.code.after a) 0 b).get k + (crossing k a b).length := by
  have hregions := State.regions_append .code a b
  have hlength : (State.code.regions a).length = a.length := State.length_regions _ a
  simp only [scan, get_scanFrom, PerKeyword.get_zero, Nat.zero_add, crossing, hregions,
    occurrences_append k a b hlength, List.filter_append, List.length_append]
  generalize hearly : (List.range a.length).filter _ = early
  -- of the occurrences that start in the first text, some end there
  have hinner : early.filter (fun i => !decide (i < a.length ∧ a.length < i + k.bytes.length))
      = occurrences k a (State.code.regions a) := by
    rw [← hearly, List.filter_filter, occurrences]
    refine List.filter_congr fun i hi => ?_
    have hiff := prefix_append_iff (k := k) (b := b) (List.mem_range.mp hi)
    rw [← decide_not, ← Bool.decide_and, decide_eq_decide, and_comm, and_assoc, hiff]
  have hlate : ((occurrences k b ((State.code.after a).regions b)).map (a.length + ·)).filter
      (fun i => decide (i < a.length ∧ a.length < i + k.bytes.length)) = [] := by
    rw [List.filter_eq_nil_iff]
    intro i hi
    obtain ⟨j, -, rfl⟩ := List.mem_map.mp hi
    rw [decide_eq_true_iff]
    omega
  have hsplit := List.length_eq_length_filter_add (l := early)
    fun i => decide (i < a.length ∧ a.length < i + k.bytes.length)
  rw [hinner] at hsplit
  rw [hlate, hsplit, List.length_map, List.length_nil]
  omega

/-! ## How much a cut runs through -/

/-- A cut runs through one keyword at one position. -/
theorem crossing_unique {j k : Keyword} {a b : Bytes} {m n : Nat} (hm : m ∈ crossing j a b)
    (hn : n ∈ crossing k a b) : m = n ∧ j = k := by
  -- of two positions the later one is inside the keyword at the earlier one
  have hlater : ∀ {j k : Keyword} {m n : Nat}, m ∈ crossing j a b → n ∈ crossing k a b →
      ¬ m < n := by
    intro j k m n hm hn hlt
    obtain ⟨hstart, hi, hend⟩ := mem_crossing hm
    obtain ⟨hstart', hi', hend'⟩ := mem_crossing hn
    have hk : k.bytes <+: (a.drop m ++ b).drop (n - m) := by
      rw [List.drop_append_of_le_length (by rw [List.length_drop]; omega), List.drop_drop,
        show m + (n - m) = n by omega]
      exact hstart'
    have hle := Keyword.length_le_of_starts hstart hk (by omega)
    omega
  obtain rfl : m = n := by
    have hmn := hlater hm hn
    have hnm := hlater hn hm
    omega
  exact ⟨rfl, Keyword.eq_of_starts (mem_crossing hm).1 (mem_crossing hn).1⟩

theorem nodup_crossing (k : Keyword) (a b : Bytes) : (crossing k a b).Nodup :=
  (List.nodup_range.filter _).filter _

/-- A cut runs through one keyword at most. -/
theorem sum_crossing_le_one (a b : Bytes) :
    (Keyword.all.map fun k => (crossing k a b).length).sum ≤ 1 := by
  by_cases h : ∃ k i, i ∈ crossing k a b
  · obtain ⟨k, i, hi⟩ := h
    have hsame : crossing k a b = List.replicate (crossing k a b).length i :=
      List.eq_replicate_of_mem fun n hn => (crossing_unique hn hi).1
    have hone : (crossing k a b).length ≤ 1 :=
      List.nodup_replicate.mp (hsame ▸ nodup_crossing k a b)
    have hnone : ∀ j, j ≠ k → crossing j a b = [] := fun j hj =>
      List.eq_nil_iff_forall_not_mem.mpr fun n hn => hj (crossing_unique hn hi).2
    have hsum : (Keyword.all.map fun k => (crossing k a b).length).sum
        = (crossing k a b).length := by
      cases k <;> simp [Keyword.all, hnone]
    omega
  · have hnone : ∀ k, crossing k a b = [] := fun k =>
      List.eq_nil_iff_forall_not_mem.mpr fun i hi => h ⟨k, i, hi⟩
    simp [hnone]

/-- A cut that runs through a keyword lies between two letters of it. -/
theorem letters_of_mem_crossing {k : Keyword} {a b : Bytes} {i : Nat}
    (h : i ∈ crossing k a b) :
    (∃ c ∈ Keyword.letters, a.getLast? = some c) ∧ ∃ c ∈ Keyword.letters, b.head? = some c := by
  obtain ⟨hstart, hi, hend⟩ := mem_crossing h
  have hlength : (a.drop i).length = a.length - i := List.length_drop
  obtain ⟨behind, hbehind⟩ : a.drop i <+: k.bytes :=
    List.prefix_of_prefix_length_le (List.prefix_append _ b) hstart (by omega)
  rw [← hbehind, List.prefix_append_right_inj] at hstart
  have hlast : a.getLast? = (a.drop i).getLast? := by
    rw [List.getLast?_drop, if_neg (by omega)]
  have hletters : ∀ c ∈ a.drop i ++ behind, c ∈ Keyword.letters := fun c hc =>
    Keyword.mem_letters (hbehind ▸ hc)
  constructor
  · cases hc : (a.drop i).getLast? with
    | none =>
      rw [List.getLast?_eq_none_iff.mp hc, List.length_nil] at hlength
      omega
    | some c =>
      exact ⟨c, hletters c (List.mem_append_left _ (List.mem_of_getLast? hc)), hlast.trans hc⟩
  · cases behind with
    | nil =>
      rw [List.append_nil] at hbehind
      rw [hbehind] at hlength
      omega
    | cons c behind =>
      obtain ⟨rest, rfl⟩ := hstart
      exact ⟨c, hletters c (by simp), rfl⟩

/-- **A cut loses at most one keyword.** A scan of two texts that follow each
other counts what the scan of the first one counts, what the scan of the second
one counts from the state that the first one leads to, and what the cut between
them runs through. That is one keyword at most, and none unless there is a
letter of a keyword on either side of the cut. So more text never makes a count
smaller. -/
theorem scan_cut (a b : Bytes) :
    (∀ k, (scan (a ++ b)).get k
      = (scan a).get k + (scanFrom (State.code.after a) 0 b).get k + (crossing k a b).length) ∧
    (Keyword.all.map fun k => (crossing k a b).length).sum ≤ 1 ∧
    (∀ k, crossing k a b ≠ [] →
      (∃ c ∈ Keyword.letters, a.getLast? = some c) ∧
        ∃ c ∈ Keyword.letters, b.head? = some c) ∧
    ∀ k, (scan a).get k ≤ (scan (a ++ b)).get k := by
  refine ⟨fun k => get_scan_append k a b, sum_crossing_le_one a b, fun k hk => ?_, fun k => ?_⟩
  · obtain ⟨i, hi⟩ := List.exists_mem_of_ne_nil _ hk
    exact letters_of_mem_crossing hi
  · rw [get_scan_append]
    omega

/-- A cut through `public`, whose last letter starts a `catch`. -/
theorem scan_cut_publicatch :
    crossing .publicWord (Utf8.ofString "publ") (Utf8.ofString "icatch") = [0] ∧
      (∃ c ∈ Keyword.letters, (Utf8.ofString "publ").getLast? = some c) ∧
      (scan (Utf8.ofString "publ")).get .publicWord
        ≤ (scan (Utf8.ofString "publ" ++ Utf8.ofString "icatch")).get .publicWord := by
  have hcross : crossing .publicWord (Utf8.ofString "publ") (Utf8.ofString "icatch") = [0] := by
    decide
  obtain ⟨-, -, hletters, hmore⟩ := scan_cut (Utf8.ofString "publ") (Utf8.ofString "icatch")
  exact ⟨hcross, (hletters .publicWord (by simp [hcross])).1, hmore .publicWord⟩

end Lexer

end KeywordSurvey
