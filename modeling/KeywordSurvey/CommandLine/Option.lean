import KeywordSurvey.Text.Utf8

/-!
# Options of the command line

The names of the options, and what can be wrong with a command line as such. Options with a value
take it from the next argument, or from behind an equals sign; the others are switches.
-/

namespace KeywordSurvey.CommandLine

/-- An option that takes a value. -/
inductive ValueOption where
  | ext
  | format
  | depth
  | jobs
  deriving DecidableEq

/-- An option without a value. -/
inductive Switch where
  | keepGoing
  | verbose
  | quiet
  | help
  | version
  deriving DecidableEq

/-- An option. -/
inductive Known where
  | value (o : ValueOption)
  | switch (s : Switch)
  deriving DecidableEq

/-- The options by their long names. -/
def longNames : List (String × Known) :=
  [("ext", .value .ext), ("format", .value .format), ("depth", .value .depth),
    ("jobs", .value .jobs), ("keep-going", .switch .keepGoing), ("verbose", .switch .verbose),
    ("quiet", .switch .quiet), ("help", .switch .help), ("version", .switch .version)]

/-- The option of a long name. -/
def Known.ofLong? (name : Bytes) : Option Known :=
  (longNames.find? fun entry => Utf8.ofString entry.1 == name).map Prod.snd

/-- The option of a letter. -/
def Known.ofLetter? (letter : UInt8) : Option Known :=
  if letter = 0x6A then some (.value .jobs)
  else if letter = 0x76 then some (.switch .verbose)
  else if letter = 0x71 then some (.switch .quiet)
  else if letter = 0x68 then some (.switch .help)
  else if letter = 0x56 then some (.switch .version)
  else none

/-- Why a command line is not carried out. -/
inductive Usage where
  /-- A value is missing or none of the possible ones. -/
  | invalidValue
  /-- A value is no number. -/
  | valueValidation
  | invalidUtf8
  | unknownArgument
  /-- An option is repeated, or stands beside one that it excludes. -/
  | argumentConflict
  | missingRequired
  /-- A switch has a value. -/
  | tooManyValues
  | displayHelp
  | displayVersion
  deriving DecidableEq

namespace Usage

/-- The exit status. Showing help or the version is what was asked for. -/
def exitCode : Usage → Nat
  | .displayHelp => 0
  | .displayVersion => 0
  | _ => 2

end Usage

end KeywordSurvey.CommandLine
