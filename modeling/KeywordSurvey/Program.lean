import KeywordSurvey.CommandLine.Settings
import KeywordSurvey.Exploration.Bound
import KeywordSurvey.FileSystem.Tree
import KeywordSurvey.Journal.Filter

/-!
# The program

A run from the command line: arguments and a file system in; printed survey, messages, journal
and exit status out. The status tells three outcomes apart: a complete survey, one with paths
left out, and none at all. Only a survey is printed to the standard output.
-/

namespace KeywordSurvey

/-- What a run of the program comes to. -/
structure Outcome where
  exitCode : Nat
  output : List Char
  messages : List String
  journal : List Event

namespace Program

/-- The status of a run with a complete survey. -/
def exitComplete : Nat := 0

/-- The status of a run without a survey. -/
def exitFailed : Nat := 1

/-- The status of a run whose survey leaves paths out. -/
def exitPartial : Nat := 2

/-- The status of a run that was broken off, by a sum that does not fit or by a filter that cannot
be cut into its parts. -/
def exitBrokenOff : Nat := 101

def versionText : String := "keyword_census 0.3.0\n"

def usageText : String := "Usage: keyword_census [OPTIONS] <PATH>\n"

/-- A command line that is not carried out. -/
def refused (usage : CommandLine.Usage) : Outcome :=
  match usage with
  | .displayVersion => ⟨usage.exitCode, versionText.toList, [], []⟩
  | .displayHelp => ⟨usage.exitCode, usageText.toList, [], []⟩
  | _ => ⟨usage.exitCode, [], [usageText], []⟩

/-- Arguments without settings. -/
def misconfigured (f : Failure) : Outcome := ⟨exitFailed, [], ["Error: " ++ f.message], []⟩

/-- What the program prints about the paths that were left out. -/
def warning (count : Nat) : String :=
  "warning: skipped " ++ toString count ++ " unreadable path(s)"

/-- What the program prints about a run that failed. -/
def complaint (root : Path) (f : Failure) : String :=
  "Error: cannot scan '" ++ root.display ++ "': " ++ f.chain

/-- The end of a run. -/
def conclude (settings : CommandLine.Settings) (journal : List Event) :
    Except Abort Survey → Outcome
  | .error .overflow => ⟨exitBrokenOff, [], [], journal⟩
  | .error (.failure f) => ⟨exitFailed, [], [complaint settings.root f], journal⟩
  | .ok survey =>
    let output := survey.render settings.format settings.depth
    if survey.isComplete then ⟨exitComplete, output, [], journal ++ [.complete]⟩
    else ⟨exitPartial, output, [warning survey.skipped.length], journal ++ [.complete]⟩

/-- What is told on the way to the end of a run. -/
def journey (settings : CommandLine.Settings) (fs : FileSystem) : List Event :=
  if fs.isDirectory settings.root then
    (settings.plan.exploration fs.bounded settings.root).events settings.plan.policy fs.unresolved
      true
  else []

/-- Carries the settings out. -/
def carryOut (settings : CommandLine.Settings) (fs : FileSystem) : Outcome :=
  conclude settings (.configured :: journey settings fs)
    (settings.plan.run fs.bounded settings.root)

/-- The outcome with only so much of the journal. -/
def told (filter : Filter) (o : Outcome) : Outcome :=
  { o with journal := o.journal.filter filter.admits }

/-- Runs the program. `directives` is the filter that the surroundings ask for. -/
def run (fs : FileSystem) (directives : Option String) (arguments : List Bytes) : Outcome :=
  match CommandLine.Arguments.ofList arguments with
  | .error usage => refused usage
  | .ok a =>
    match CommandLine.Settings.ofArguments a with
    | .error f => misconfigured f
    | .ok settings =>
      match Filter.choose? directives settings.level with
      | none => ⟨exitBrokenOff, [], [], []⟩
      | some filter => told filter (carryOut settings fs)

end Program

end KeywordSurvey
