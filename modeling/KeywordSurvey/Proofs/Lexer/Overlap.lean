import KeywordSurvey.Proofs.Lexer.Occurrence
import Mathlib.Data.List.Infix

/-!
# Keywords that overlap

Two keywords hardly ever share a byte of a text. A keyword that starts within
another one is a `catch` that starts with the last letter of a `public`
(`Keyword.eq_of_overlap`), so no two of them share two bytes.
-/

namespace KeywordSurvey

namespace Keyword

/-- The letters that keywords are made of. -/
def letters : Bytes := Utf8.ofString "abcehilprtuvy"

theorem mem_letters {k : Keyword} {b : UInt8} (h : b ∈ k.bytes) : b ∈ letters := by
  have hall : ∀ k ∈ all, ∀ b ∈ k.bytes, b ∈ letters := by decide +kernel
  exact hall k (mem_all k) b h

/-- **A keyword within a keyword** is a `catch` within a `public`. -/
theorem eq_of_overlap {j k : Keyword} {text : Bytes} {d : Nat} (hj : j.bytes <+: text)
    (hk : k.bytes <+: text.drop d) (hd : 0 < d) (hlt : d < j.bytes.length) :
    j = .publicWord ∧ k = .catchWord ∧ d = 5 := by
  -- what is left of the first keyword and the second one begin the same text
  have hleft : j.bytes.drop d <+: text.drop d := hj.drop d
  have hshared : j.bytes.drop d <+: k.bytes ∨ k.bytes <+: j.bytes.drop d :=
    List.prefix_or_prefix_of_prefix hleft hk
  have hall : ∀ j ∈ all, ∀ k ∈ all, ∀ d ∈ List.range j.bytes.length, 0 < d →
      (j.bytes.drop d <+: k.bytes ∨ k.bytes <+: j.bytes.drop d) →
      j = .publicWord ∧ k = .catchWord ∧ d = 5 := by decide
  exact hall j (mem_all j) k (mem_all k) d (List.mem_range.mpr hlt) hd hshared

/-- No two keywords share two bytes. -/
theorem length_le_of_starts {j k : Keyword} {text : Bytes} {d : Nat} (hj : j.bytes <+: text)
    (hk : k.bytes <+: text.drop d) (hd : 0 < d) : j.bytes.length ≤ d + 1 := by
  by_cases hlt : d < j.bytes.length
  · obtain ⟨rfl, -, rfl⟩ := eq_of_overlap hj hk hd hlt
    decide
  · omega

theorem opening?_eq_none_iff {text : Bytes} :
    opening? text = none ↔ ∀ k : Keyword, ¬ k.bytes <+: text := by
  rw [Option.eq_none_iff_forall_ne_some]
  exact forall_congr' fun k => not_congr opening?_eq_some_iff

end Keyword

end KeywordSurvey
