import KeywordSurvey.CommandLine.Option
import KeywordSurvey.Count
import KeywordSurvey.Rendering

/-!
# Reading the arguments

Arguments are read one by one. A value is not looked at before the next known option, the next
path or the end: until then it is pending. So of two faults the one that is found last may be
reported: an unknown argument makes the pending value irrelevant.
-/

namespace KeywordSurvey.CommandLine

/-- What the arguments say. -/
structure Arguments where
  path : Path
  ext : Option String
  format : Option Format
  depth : Option Nat
  jobs : Option Nat
  keepGoing : Bool
  /-- How often more output was asked for; at most 255. -/
  verbose : Nat
  quiet : Bool
  deriving DecidableEq

/-- What a pending value is for. -/
inductive Slot where
  | path
  | option (o : ValueOption)
  deriving DecidableEq

/-- A value that has not been looked at, or the place for it. -/
structure Pending where
  slot : Slot
  value : Option Bytes
  deriving DecidableEq

/-- What the arguments so far say. -/
structure Draft where
  path : Option Path
  ext : Option String
  format : Option Format
  depth : Option Nat
  jobs : Option Nat
  keepGoing : Bool
  verbose : Nat
  quiet : Bool

/-- Nothing has been said. -/
def Draft.empty : Draft := ⟨none, none, none, none, none, false, 0, false⟩

/-- The most that is counted. -/
def mostVerbose : Nat := 255

/-- The text of a value. -/
def textValue (value : Bytes) : Except Usage (List Char) :=
  match Utf8.decode? value with
  | some text => .ok text
  | none => .error .invalidUtf8

/-- The number of a value, which is below 2^64. -/
def numberValue (value : Bytes) : Except Usage Nat := do
  let text ← textValue value
  match Text.natural? text with
  | some n => if n < Count.limit then .ok n else .error .valueValidation
  | none => .error .valueValidation

/-- The format of a value. -/
def formatValue (value : Bytes) : Except Usage Format :=
  if value = Utf8.ofString "text" then .ok .text
  else if value = Utf8.ofString "json" then .ok .json
  else .error .invalidValue

namespace Draft

/-- An option may be given once. -/
def once {α : Type} (old : Option α) : Except Usage Unit :=
  if old.isSome then .error .argumentConflict else .ok ()

/-- Puts a value in its place. -/
def store (d : Draft) (slot : Slot) (value : Bytes) : Except Usage Draft :=
  match slot with
  | .path => do
    once d.path
    if value.isEmpty then .error .invalidValue else .ok { d with path := some ⟨value⟩ }
  | .option .ext => do
    once d.ext
    let text ← textValue value
    .ok { d with ext := some (String.ofList text) }
  | .option .format => do
    once d.format
    let format ← formatValue value
    .ok { d with format := some format }
  | .option .depth => do
    once d.depth
    let n ← numberValue value
    .ok { d with depth := some n }
  | .option .jobs => do
    once d.jobs
    let n ← numberValue value
    .ok { d with jobs := some n }

/-- Looks at a pending value. -/
def settle (d : Draft) : Option Pending → Except Usage Draft
  | none => .ok d
  | some ⟨_, none⟩ => .error .invalidValue
  | some ⟨slot, some value⟩ => d.store slot value

/-- Sets a switch. -/
def turn (d : Draft) : Switch → Except Usage Draft
  | .keepGoing => if d.keepGoing then .error .argumentConflict else .ok { d with keepGoing := true }
  | .verbose => .ok { d with verbose := min (d.verbose + 1) mostVerbose }
  | .quiet => if d.quiet then .error .argumentConflict else .ok { d with quiet := true }
  | .help => .error .displayHelp
  | .version => .error .displayVersion

/-- What the arguments say, all of them read. -/
def finish (d : Draft) : Except Usage Arguments :=
  if 0 < d.verbose && d.quiet then .error .argumentConflict
  else match d.path with
    | none => .error .missingRequired
    | some path =>
      .ok ⟨path, d.ext, d.format, d.depth, d.jobs, d.keepGoing, d.verbose, d.quiet⟩

end Draft

/-- The state between two arguments. -/
structure Progress where
  draft : Draft
  pending : Option Pending
  /-- The next argument is the value of the pending option, unless it looks like an option. -/
  wantsValue : Bool
  /-- There has been a path. -/
  hasPath : Bool
  /-- All further arguments are paths. -/
  onlyPaths : Bool

namespace Progress

def start : Progress := ⟨Draft.empty, none, false, false, false⟩

/-- Looks at the pending value. -/
def settled (p : Progress) : Except Usage Progress := do
  let draft ← p.draft.settle p.pending
  .ok { p with draft := draft, pending := none, wantsValue := false }

/-- Takes an option with a value behind its name. -/
def attach (p : Progress) (o : ValueOption) (value : Bytes) : Except Usage Progress := do
  let p ← p.settled
  let draft ← p.draft.store (.option o) value
  .ok { p with draft := draft }

/-- Takes an option whose value is the next argument. -/
def await (p : Progress) (o : ValueOption) : Except Usage Progress := do
  let p ← p.settled
  .ok { p with pending := some ⟨.option o, none⟩, wantsValue := true }

/-- Takes a switch. -/
def turn (p : Progress) (s : Switch) : Except Usage Progress := do
  let p ← p.settled
  let draft ← p.draft.turn s
  .ok { p with draft := draft }

/-- Takes an option by its long name. -/
def long (p : Progress) (name : Bytes) (value : Option Bytes) : Except Usage Progress :=
  match Known.ofLong? name, value with
  | none, _ => .error .unknownArgument
  | some (.value o), some value => p.attach o value
  | some (.value o), none => p.await o
  | some (.switch _), some _ => .error .tooManyValues
  | some (.switch s), none => p.turn s

/-- The equals sign. -/
def equals : UInt8 := 0x3D

/-- Takes options by their letters. The letters after an option with a value are its value. -/
def letters (p : Progress) : Bytes → Except Usage Progress
  | [] => .ok p
  | letter :: rest =>
    match Known.ofLetter? letter with
    | none => .error .unknownArgument
    | some (.switch s) => do
      let p ← p.turn s
      p.letters rest
    | some (.value o) =>
      match rest with
      | [] => p.await o
      | b :: value => p.attach o (if b = equals then value else b :: value)

/-- Takes an argument that is no option: the value of the pending option, or a path. -/
def plain (p : Progress) (argument : Bytes) : Except Usage Progress :=
  if p.wantsValue && !p.onlyPaths then
    .ok { p with
      pending := p.pending.map fun q => { q with value := some argument }, wantsValue := false }
  else if p.hasPath then .error .unknownArgument
  else do
    let p ← p.settled
    .ok { p with pending := some ⟨.path, some argument⟩, hasPath := true }

/-- Splits a long option at its first equals sign. -/
def splitEquals (body : Bytes) : Bytes × Option Bytes :=
  match body.dropWhile (· != equals) with
  | [] => (body, none)
  | _ :: value => (body.takeWhile (· != equals), some value)

/-- Takes one argument. -/
def take (p : Progress) (argument : Bytes) : Except Usage Progress :=
  if p.onlyPaths then p.plain argument
  else match argument with
    | [0x2D, 0x2D] => .ok { p with onlyPaths := true }
    | 0x2D :: 0x2D :: body =>
      let (name, value) := splitEquals body
      p.long name value
    | 0x2D :: letter :: rest => p.letters (letter :: rest)
    | _ => p.plain argument

end Progress

/-- Reads all arguments. -/
def Arguments.ofList (arguments : List Bytes) : Except Usage Arguments := do
  let p ← arguments.foldlM Progress.take Progress.start
  let p ← p.settled
  p.draft.finish

end KeywordSurvey.CommandLine
