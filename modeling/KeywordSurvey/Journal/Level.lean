/-!
# Levels of the journal

How much a run tells about itself. The flags of the command line choose the level; a quiet run
is quiet however many other flags there are.
-/

namespace KeywordSurvey

/-- How much is told, from little to much. -/
inductive LogLevel where
  | error
  | warn
  | info
  | debug
  deriving DecidableEq

namespace LogLevel

/-- The level of a run without flags. -/
def standard : LogLevel := warn

/-- The level that the flags choose. -/
def ofFlags (verbose : Nat) (quiet : Bool) : LogLevel :=
  if quiet then error
  else match verbose with
    | 0 => warn
    | 1 => info
    | _ => debug

/-- The name of the level. -/
def name : LogLevel → String
  | error => "error"
  | warn => "warn"
  | info => "info"
  | debug => "debug"

/-- The place of the level, from little to much. -/
def rank : LogLevel → Nat
  | error => 0
  | warn => 1
  | info => 2
  | debug => 3

/-- The place of a level relative to another. -/
def compare (a b : LogLevel) : Ordering := Ord.compare a.rank b.rank

end LogLevel

end KeywordSurvey
