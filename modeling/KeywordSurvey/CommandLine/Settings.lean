import KeywordSurvey.CommandLine.Arguments
import KeywordSurvey.Exploration.Basic
import KeywordSurvey.Journal.Level

/-!
# Settings of a run

What a run is told to do. Arguments become settings unless the number of jobs or the ending is
out of bounds; the number of jobs is looked at first. How many jobs work on a run has no
influence on its result.
-/

namespace KeywordSurvey.CommandLine

/-- Everything that a run is told. -/
structure Settings where
  root : Path
  plan : Plan
  format : Format
  /-- The deepest level that is printed. -/
  depth : Option Nat
  /-- How many jobs work at the same time; as many as there are processors if not given. -/
  jobs : Option Nat
  level : LogLevel

namespace Settings

/-- The most jobs that may be asked for. -/
def mostJobs : Nat := 512

/-- The failure of a number of jobs that is out of bounds. -/
def badJobs (n : Nat) : Failure :=
  .of (.invalidValue "--jobs" (toString n) ("must be between 1 and " ++ toString mostJobs))

/-- Refuses a number of jobs that is out of bounds. -/
def checkJobs : Option Nat → Except Failure Unit
  | none => .ok ()
  | some n => if n = 0 ∨ mostJobs < n then .error (badJobs n) else .ok ()

/-- The selector of an ending, if one is given. -/
def selector : Option String → Except Failure Selector
  | none => .ok Selector.standard
  | some ending => (Selector.ofEnding ending).mapError (·.remark "--ext")

/-- The settings that the arguments ask for. -/
def ofArguments (a : Arguments) : Except Failure Settings := do
  checkJobs a.jobs
  let selector ← selector a.ext
  .ok {
    root := a.path
    plan := ⟨selector, if a.keepGoing then .skip else .strict⟩
    format := a.format.getD .text
    depth := a.depth
    jobs := a.jobs
    level := LogLevel.ofFlags a.verbose a.quiet }

end Settings

end KeywordSurvey.CommandLine
