import KeywordSurvey.Keyword

/-!
# Searching for a keyword

Which keyword a text starts with depends on the text alone. No keyword starts
with another one, so two of them never fit the same text, and a search finds the
one that fits in whatever order it tries them (`Keyword.search_eq_some_iff`).
That it looks at the first byte before it tries any of them does not matter
either, as long as it lets the first letter of every keyword through. So the
keyword found at a position is exactly the one that stands there
(`Keyword.at?_eq_some_iff`).
-/

namespace KeywordSurvey

namespace Keyword

/-! ## The words -/

theorem mem_all (k : Keyword) : k ∈ all := by cases k <;> decide

theorem length_bytes_pos (k : Keyword) : 0 < k.bytes.length := by cases k <;> decide

theorem bytes_eq_ofString_word (k : Keyword) : k.bytes = Utf8.ofString k.word := by
  cases k <;> decide +kernel

/-- No keyword starts with another one. -/
theorem eq_of_leading_bytes {j k : Keyword} (h : j.bytes <+: k.bytes) : j = k := by
  revert h
  cases j <;> cases k <;> decide

theorem eq_of_starts {j k : Keyword} {text : Bytes} (hj : j.bytes <+: text)
    (hk : k.bytes <+: text) : j = k := by
  rcases Nat.le_total j.bytes.length k.bytes.length with h | h
  · exact eq_of_leading_bytes (List.prefix_of_prefix_length_le hj hk h)
  · exact (eq_of_leading_bytes (List.prefix_of_prefix_length_le hk hj h)).symm

/-- The bytes let through are the first letters of the keywords. -/
theorem leads_iff {b : UInt8} : leads b = true ↔ ∃ k : Keyword, k.bytes.head? = some b := by
  constructor
  · intro h
    simp only [leads, Bool.or_eq_true, beq_iff_eq] at h
    rcases h with (rfl | rfl) | rfl
    · exact ⟨.publicWord, rfl⟩
    · exact ⟨.tryWord, rfl⟩
    · exact ⟨.catchWord, rfl⟩
  · rintro ⟨k, hk⟩
    cases k <;> simp only [bytes, List.head?_cons, Option.some.injEq] at hk <;> simp [leads, ← hk]

/-- A text that starts with a keyword starts with its first letter. -/
theorem head?_of_starts {k : Keyword} {b : UInt8} {rest : Bytes} (h : k.bytes <+: b :: rest) :
    k.bytes.head? = some b := by
  obtain ⟨first, more, hbytes⟩ :=
    List.exists_cons_of_ne_nil (List.length_pos_iff.mp k.length_bytes_pos)
  rw [hbytes, List.cons_prefix_cons] at h
  rw [hbytes, h.1, List.head?_cons]

/-- The look at the first byte turns no keyword away. -/
theorem leads_of_starts {k : Keyword} {b : UInt8} {rest : Bytes}
    (h : k.bytes <+: b :: rest) : leads b = true :=
  leads_iff.mpr ⟨k, head?_of_starts h⟩

/-! ## The search -/

/-- The first keyword, in this order, that the text starts with, if the first
byte is let through. -/
def search (order : List Keyword) (admits : UInt8 → Bool) : Bytes → Option Keyword
  | [] => none
  | b :: rest => if admits b then order.find? (fun k => k.bytes.isPrefixOf (b :: rest)) else none

theorem opening?_eq_search (text : Bytes) : opening? text = search all leads text := by
  cases text <;> rfl

/-- **The search is exact** in every order of all keywords, whatever else is let
through besides their first letters. -/
theorem search_eq_some_iff {order : List Keyword} {admits : UInt8 → Bool}
    (horder : ∀ k, k ∈ order) (hadmits : ∀ b, leads b = true → admits b = true) {text : Bytes}
    {k : Keyword} : search order admits text = some k ↔ k.bytes <+: text := by
  cases text with
  | nil => cases k <;> simp [search, bytes]
  | cons b rest =>
    constructor
    · intro h
      simp only [search] at h
      split at h
      · simpa using List.find?_some h
      · cases h
    · intro h
      have hsome : (order.find? fun k => k.bytes.isPrefixOf (b :: rest)).isSome :=
        List.find?_isSome.mpr ⟨k, horder k, List.isPrefixOf_iff_prefix.mpr h⟩
      obtain ⟨j, hj⟩ := Option.isSome_iff_exists.mp hsome
      -- another keyword may come first in the order, but it does not fit
      have hstarts : j.bytes <+: b :: rest := by simpa using List.find?_some hj
      rw [search, if_pos (hadmits b (leads_of_starts h)), hj, eq_of_starts hstarts h]

/-- The keyword found is the one that the text starts with. -/
theorem opening?_eq_some_iff {text : Bytes} {k : Keyword} :
    opening? text = some k ↔ k.bytes <+: text := by
  rw [opening?_eq_search]
  exact search_eq_some_iff mem_all fun _ h => h

/-- Every such search finds the same keyword. -/
theorem search_eq_opening? {order : List Keyword} {admits : UInt8 → Bool}
    (horder : ∀ k, k ∈ order) (hadmits : ∀ b, leads b = true → admits b = true) (text : Bytes) :
    search order admits text = opening? text := by
  apply Option.ext
  intro k
  rw [search_eq_some_iff horder hadmits, opening?_eq_some_iff]

/-! ## The keyword at a position -/

/-- A keyword that stands at a position ends within the text. -/
theorem le_length_of_starts_drop {k : Keyword} {text : Bytes} {position : Nat}
    (h : k.bytes <+: text.drop position) : position + k.bytes.length ≤ text.length := by
  have hle : k.bytes.length ≤ (text.drop position).length := h.length_le
  have hpos := k.length_bytes_pos
  rw [List.length_drop] at hle
  omega

/-- **The keyword at a position is the one that stands there.** It is found
exactly if the position is not past the end and the word comes next in the text;
no two words come next at one position; the first byte of a word that comes next
is let through; and a search in any other order, whatever it lets through besides
the first letters of the words, finds the same. -/
theorem at?_eq_some_iff (text : Bytes) (position : Nat) :
    (∀ k, at? text position = some k ↔
      position ≤ text.length ∧ Utf8.ofString k.word <+: text.drop position) ∧
    (∀ j k : Keyword, Utf8.ofString j.word <+: text.drop position →
      Utf8.ofString k.word <+: text.drop position → j = k) ∧
    (∀ k : Keyword, Utf8.ofString k.word <+: text.drop position →
      ∃ b, (text.drop position).head? = some b ∧ leads b = true) ∧
    ∀ order : List Keyword, order.Perm all →
      ∀ admits : UInt8 → Bool, (∀ b, leads b = true → admits b = true) →
        search order admits (text.drop position) = at? text position := by
  simp only [← bytes_eq_ofString_word]
  refine ⟨fun k => ?_, fun j k => eq_of_starts, fun k h => ?_, fun order horder admits h => ?_⟩
  · rw [at?, opening?_eq_some_iff]
    constructor
    · intro h
      have hle := le_length_of_starts_drop h
      exact ⟨by omega, h⟩
    · exact And.right
  · cases hrest : text.drop position with
    | nil =>
      rw [hrest] at h
      exact absurd (List.prefix_nil.mp h) (List.length_pos_iff.mp k.length_bytes_pos)
    | cons b rest =>
      rw [hrest] at h
      exact ⟨b, rfl, leads_of_starts h⟩
  · exact search_eq_opening? (fun k => horder.mem_iff.mpr k.mem_all) h _

/-- The last letter of a `public` starts a `catch`, and a search that tries the
keywords backwards and lets every byte through finds it. -/
theorem at?_eq_some_iff_publicatch :
    Utf8.ofString Keyword.catchWord.word <+: (Utf8.ofString "publicatch").drop 5 ∧
    all.reverse.Perm all ∧ (∀ b, leads b = true → (fun _ => true) b = true) ∧
    at? (Utf8.ofString "publicatch") 5 = some .catchWord ∧
    search all.reverse (fun _ => true) ((Utf8.ofString "publicatch").drop 5)
      = at? (Utf8.ofString "publicatch") 5 := by
  obtain ⟨hfound, -, -, hsearch⟩ := at?_eq_some_iff (Utf8.ofString "publicatch") 5
  have hstarts : Utf8.ofString Keyword.catchWord.word <+: (Utf8.ofString "publicatch").drop 5 := by
    decide +kernel
  have hbefore : 5 ≤ (Utf8.ofString "publicatch").length := by decide +kernel
  have hperm : all.reverse.Perm all := List.reverse_perm all
  exact ⟨hstarts, hperm, fun _ _ => rfl, (hfound .catchWord).mpr ⟨hbefore, hstarts⟩,
    hsearch all.reverse hperm (fun _ => true) fun _ _ => rfl⟩

end Keyword

end KeywordSurvey
