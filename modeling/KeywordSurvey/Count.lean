/-!
# Counts

Sizes, numbers of files and numbers of keywords are kept in 64 bits. A `Count` carries the
proof that it fits, and the only way to a new one is `Count.ofNat?`, which refuses what does
not fit: a sum is either exact or absent.
-/

namespace KeywordSurvey

/-- A natural number that fits in 64 bits: it is below 2^64. -/
structure Count where
  val : Nat
  fits : val < 18446744073709551616
  deriving DecidableEq

namespace Count

/-- The first number that does not fit. -/
def limit : Nat := 18446744073709551616

/-- The number as a count, if it fits. -/
def ofNat? (n : Nat) : Option Count :=
  if h : n < limit then some ⟨n, h⟩ else none

def zero : Count := ⟨0, by decide⟩

def one : Count := ⟨1, by decide⟩

/-- The exact sum, if it fits. -/
def add? (a b : Count) : Option Count := ofNat? (a.val + b.val)

/-- Adds up from the left; one partial sum that does not fit leaves no sum at all. -/
def sum? (counts : List Count) : Option Count := counts.foldlM add? zero

def isZero (a : Count) : Bool := a.val == 0

/-- The place of `a` relative to `b`. -/
def compare (a b : Count) : Ordering := Ord.compare a.val b.val

@[ext] theorem ext {a b : Count} (h : a.val = b.val) : a = b := by
  cases a; cases b; simp_all

theorem ofNat?_eq_some_iff {n : Nat} {c : Count} : ofNat? n = some c ↔ c.val = n := by
  unfold ofNat?
  split
  · constructor
    · intro h; cases h; rfl
    · intro h; subst h; rfl
  · next hn =>
    constructor
    · intro h; cases h
    · intro h; exact absurd (h ▸ c.fits) hn

theorem ofNat?_eq_none_iff {n : Nat} : ofNat? n = none ↔ limit ≤ n := by
  unfold ofNat?
  split <;> simp <;> omega

/-- A sum that is there is the exact one. -/
theorem add?_eq_some_iff {a b c : Count} : add? a b = some c ↔ c.val = a.val + b.val :=
  ofNat?_eq_some_iff

/-- A sum is missing only where the exact one does not fit. -/
theorem add?_eq_none_iff {a b : Count} : add? a b = none ↔ limit ≤ a.val + b.val :=
  ofNat?_eq_none_iff

end Count

end KeywordSurvey
