import KeywordSurvey.Text.Utf8
import Mathlib.Data.Char

/-!
# ASCII in lossy text

The decoder makes an ASCII character of its own byte and of nothing else: what
is put together from several bytes lies beyond ASCII, and what is no character
becomes a replacement. So an ASCII character stands in lossy text as often as
its byte stands among the bytes (`count_decodeLossy`).
-/

namespace KeywordSurvey.Utf8

/-- What is owed belongs to a character beyond ASCII. -/
def Pending.IsWide : Pending → Prop
  | .rest => True
  | .owing missing low _ value =>
    0x80 ≤ low ∧ 2 ≤ value * 64 + (low - 0x80) ∧ (missing ≤ 1 → 2 ≤ value)

theorem isWide_start (b : UInt8) : (start b).2.IsWide := by
  unfold start
  dsimp only
  split
  · trivial
  split
  · trivial
  split
  · simp only [Pending.IsWide]
    omega
  split
  · simp only [Pending.IsWide]
    split <;> omega
  split
  · simp only [Pending.IsWide]
    split <;> omega
  · trivial

theorem isWide_feed {p : Pending} (hp : p.IsWide) (b : UInt8) : (feed p b).2.IsWide := by
  cases p with
  | rest => exact isWide_start b
  | owing missing low high value =>
    obtain ⟨hlow, hvalue, hlast⟩ := hp
    unfold feed
    dsimp only
    split
    · split
      · trivial
      · simp only [Pending.IsWide]
        omega
    · exact isWide_start b

section

variable {c : Char} (hpos : 0 < c.toNat) (hascii : c.toNat < 0x80)

include hpos

theorem ofNat_eq_iff (n : Nat) : Char.ofNat n = c ↔ n = c.toNat := by
  constructor
  · rintro rfl
    by_cases hvalid : n.isValidChar
    · rw [Char.ofNat, dif_pos hvalid]
      rfl
    -- a number that is no code point stands for the null character
    · simp [Char.ofNat, hvalid, Char.toNat] at hpos
  · rintro rfl
    exact c.ofNat_toNat

omit hpos

include hascii

theorem replacement_ne : replacement ≠ c := by
  rintro rfl
  exact absurd hascii (by decide)

theorem eq_byte_iff (b : UInt8) : b = c.toNat.toUInt8 ↔ b.toNat = c.toNat := by
  rw [← UInt8.toNat_inj]
  simp only [Nat.toUInt8, UInt8.toNat_ofNat']
  omega

include hpos

/-- A byte at the start of a character is that character or begins another. -/
theorem count_start (b : UInt8) :
    (start b).1.count c = if b = c.toNat.toUInt8 then 1 else 0 := by
  unfold start
  dsimp only
  by_cases hb : b.toNat < 0x80
  · simp only [if_pos hb, List.count_singleton, beq_iff_eq, ofNat_eq_iff hpos, eq_byte_iff hascii]
  · have hne : b ≠ c.toNat.toUInt8 := by
      rw [Ne, eq_byte_iff hascii]
      omega
    have hreplacement := replacement_ne hascii
    rw [if_neg hb, if_neg hne]
    repeat' split
    all_goals simp [hreplacement]

theorem count_feed {p : Pending} (hp : p.IsWide) (b : UInt8) :
    (feed p b).1.count c = if b = c.toNat.toUInt8 then 1 else 0 := by
  cases p with
  | rest => exact count_start hpos hascii b
  | owing missing low high value =>
    obtain ⟨hlow, hvalue, hlast⟩ := hp
    unfold feed
    dsimp only
    by_cases hb : low ≤ b.toNat ∧ b.toNat ≤ high
    · have hne : b ≠ c.toNat.toUInt8 := by
        rw [Ne, eq_byte_iff hascii]
        omega
      rw [if_pos hb, if_neg hne]
      split
      · next hmissing =>
        have hwide : Char.ofNat (value * 64 + (b.toNat - 0x80)) ≠ c := by
          have := hlast hmissing
          rw [Ne, ofNat_eq_iff hpos]
          omega
        simp [hwide]
      · rfl
    · rw [if_neg hb, List.count_cons_of_ne (replacement_ne hascii)]
      exact count_start hpos hascii b

theorem count_decodeFrom {p : Pending} (hp : p.IsWide) (done : List Char) (bytes : Bytes) :
    (decodeFrom p done bytes).count c = done.count c + bytes.count c.toNat.toUInt8 := by
  induction bytes generalizing p done with
  | nil =>
    cases p with
    | rest => simp [decodeFrom]
    | owing missing low high value => simp [decodeFrom, replacement_ne hascii]
  | cons b bytes ih =>
    rw [decodeFrom]
    simp only [ih (isWide_feed hp b), List.count_append, List.count_reverse,
      count_feed hpos hascii hp, List.count_cons, beq_iff_eq]
    omega

/-- **An ASCII character stands in lossy text as often as its byte stands
among the bytes.** -/
theorem count_decodeLossy (bytes : Bytes) :
    (decodeLossy bytes).count c = bytes.count c.toNat.toUInt8 := by
  have hcount := count_decodeFrom hpos hascii (p := .rest) trivial [] bytes
  rwa [List.count_nil, Nat.zero_add] at hcount

end

end KeywordSurvey.Utf8
