/-!
# The range of numbers

A number may have any size up to the largest binary floating point number of 53 bits. What
counts is the rounded product of two rounded factors: the leading digits, and the power of ten
that they stand for.
-/

namespace KeywordSurvey.Json

/-- The number with its 53 leading binary digits, rounded to the nearest; a tie goes to the even
one. -/
def round53 (n : Nat) : Nat :=
  let unit := Nat.pow 2 (n.log2 - 52)
  let quotient := n / unit
  let rest := n % unit
  let up := unit < 2 * rest || (unit == 2 * rest && quotient % 2 == 1)
  (quotient + if up then 1 else 0) * unit

/-- Everything from here on rounds to no finite number. -/
def rangeEnd : Nat := Nat.pow 2 1024 - Nat.pow 2 970

/-- The largest power of ten that is in range. -/
def largestPower : Nat := 308

/-- Is `digits` times ten to the `exponent` too large? Fractions never are. -/
def isOutOfRange (digits : Nat) (exponent : Int) : Bool :=
  match exponent with
  | .negSucc _ => false
  | .ofNat power =>
    digits != 0 &&
      (largestPower < power || rangeEnd ≤ round53 digits * round53 (Nat.pow 10 power))

end KeywordSurvey.Json
