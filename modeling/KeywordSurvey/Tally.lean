import KeywordSurvey.Count
import KeywordSurvey.Keyword

/-!
# Tallies

How often each keyword occurs, in 64-bit counts. Every operation that could leave 64 bits
answers nothing instead; `Tally.exact` is the tally as plain numbers.
-/

namespace KeywordSurvey

/-- Occurrences of the four keywords. -/
abbrev Tally := PerKeyword Count

namespace Tally

def zero : Tally := PerKeyword.const Count.zero

/-- The tally as plain numbers. -/
def exact (t : Tally) : PerKeyword Nat := t.map Count.val

/-- Plain numbers as a tally, if all of them fit. -/
def ofExact? (p : PerKeyword Nat) : Option Tally := (p.map Count.ofNat?).sequence

/-- One more occurrence of `k`. -/
def record? (t : Tally) (k : Keyword) : Option Tally :=
  ((t.get k).add? Count.one).map (t.set k)

/-- The sum, keyword by keyword. -/
def add? (s t : Tally) : Option Tally := (PerKeyword.zipWith Count.add? s t).sequence

/-- Adds up from the left. -/
def sum? (tallies : List Tally) : Option Tally := tallies.foldlM add? zero

/-- All occurrences together. -/
def total? (t : Tally) : Option Count := do
  let some two := t.publicWord.add? t.privateWord | none
  let some three := two.add? t.tryWord | none
  three.add? t.catchWord

/-- Is nothing counted? Asked of the total, so a total that does not fit leaves it open. -/
def isZero? (t : Tally) : Option Bool := t.total?.map Count.isZero

end Tally

end KeywordSurvey
