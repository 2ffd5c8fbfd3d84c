import KeywordSurvey.Journal.Level
import KeywordSurvey.Text.Numeral

/-!
# Thresholds

How much is told at most: nothing, or everything up to a level. A threshold is written as a name
or as a number.
-/

namespace KeywordSurvey

/-- How much is told at most. -/
structure Threshold where
  /-- The number of levels that are told. -/
  levels : Nat
  deriving DecidableEq

namespace Threshold

def off : Threshold := ⟨0⟩

/-- Everything, also what is below all levels. -/
def everything : Threshold := ⟨5⟩

/-- Everything up to a level. -/
def upTo (level : LogLevel) : Threshold := ⟨level.rank + 1⟩

/-- Is this level told? -/
def admits (t : Threshold) (level : LogLevel) : Bool := level.rank < t.levels

/-- The thresholds by their names. -/
def names : List (String × Threshold) :=
  [("off", off), ("error", upTo .error), ("warn", upTo .warn), ("info", upTo .info),
    ("debug", upTo .debug), ("trace", everything)]

/-- The threshold of a name, in capitals or not, or of a number up to five. -/
def ofText? (text : List Char) : Option Threshold :=
  match Text.natural? text with
  | some n => if n ≤ everything.levels then some ⟨n⟩ else none
  | none => (names.find? fun entry => entry.1.toList == text.map Char.toLower).map Prod.snd

end Threshold

end KeywordSurvey
