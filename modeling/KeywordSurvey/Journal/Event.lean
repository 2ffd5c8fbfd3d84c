import KeywordSurvey.Exploration.Basic
import KeywordSurvey.Journal.Level

/-!
# What a run tells about itself

The events of a run, with their levels and the parts of the program that they come from. They
follow from what was met on the way: every directory that is entered, every file that is read,
every path that is left out.
-/

namespace KeywordSurvey

/-- Something that is told. -/
inductive Event where
  | configured
  | entering
  | classifying
  | complete
  | skipping
  | linkCycle
  | unresolvedEntry
  deriving DecidableEq

namespace Event

def all : List Event :=
  [configured, entering, classifying, complete, skipping, linkCycle, unresolvedEntry]

def message : Event → String
  | configured => "configuration loaded"
  | entering => "entering directory"
  | classifying => "classifying file"
  | complete => "census complete"
  | skipping => "skipping unreadable path"
  | linkCycle => "not descending into directory link cycle"
  | unresolvedEntry => "entry could not be resolved"

def level : Event → LogLevel
  | complete => .info
  | skipping | linkCycle => .warn
  | _ => .debug

/-- The name of the part that tells it, by which it can be chosen. -/
def origin : Event → String
  | configured => "keyword_census"
  | unresolvedEntry => "keyword_census_infra::filesystem"
  | _ => "keyword_census_usecase::orchestrator"

/-- The names of what is told with it, the message included. -/
def fields : Event → List String
  | configured => ["message", "config"]
  | entering => ["message", "dir", "depth"]
  | classifying => ["message", "path", "size"]
  | complete => ["message", "root", "extension", "directories", "files", "skipped"]
  | skipping => ["message", "path", "error"]
  | linkCycle => ["message", "dir", "target"]
  | unresolvedEntry => ["message", "dir", "entry", "error"]

end Event

namespace Policy

/-- Is a failure put up with? -/
def tolerates (policy : Policy) (f : Failure) : Bool := policy = .skip && f.isPathFailure

/-- Does a file end the run? -/
def isFatal (policy : Policy) (file : ExaminedFile) : Bool :=
  match file.outcome with
  | .ok _ => false
  | .error f => !policy.tolerates f

end Policy

/-- Was the file read? -/
def ExaminedFile.isRead (file : ExaminedFile) : Bool :=
  match file.outcome with
  | .ok _ => true
  | .error _ => false

namespace Exploration

/-- What is told about the files of a directory. All of them are read before the first failure
counts. -/
def fileEvents (policy : Policy) (files : List ExaminedFile) : List Event :=
  (files.filter ExaminedFile.isRead).map (fun _ => .classifying)
    ++ ((files.takeWhile fun f => !policy.isFatal f).filter fun f => !f.isRead).map
        fun _ => .skipping

mutual

/-- What is told on the way through an exploration, given the number of entries of a directory that
could not be told without trouble. -/
def events (policy : Policy) (unresolved : Path → Nat) (isRoot : Bool) : Exploration → List Event
  | unlisted _ f =>
    .entering :: if !isRoot && policy.tolerates f then [.skipping] else []
  | cycle _ _ => [.entering, .linkCycle]
  | expanded dir _ files subdirs =>
    .entering :: List.replicate (unresolved dir) .unresolvedEntry ++ fileEvents policy files
      ++ eventsBelow policy unresolved subdirs

/-- What is told on the way through several subdirectories. -/
def eventsBelow (policy : Policy) (unresolved : Path → Nat) : List Exploration → List Event
  | [] => []
  | subdir :: subdirs =>
    events policy unresolved false subdir ++ eventsBelow policy unresolved subdirs

end

end Exploration

end KeywordSurvey
