import KeywordSurvey.SourceTree.Entry
import KeywordSurvey.SystemError

/-!
# Walks over a directory

A walk over a directory yields the directory itself and then what it holds, links followed. What
cannot be told is yielded as an error instead, wrapped in any number of layers that say where it
was met. An error may name the thing that it is about; then it spoils that entry and not the
listing.
-/

namespace KeywordSurvey

/-- What can go wrong on a walk. -/
inductive WalkError where
  | several (errors : List WalkError)
  | atLine (line : Nat) (error : WalkError)
  | atPath (path : Path) (error : WalkError)
  | atDepth (depth : Nat) (error : WalkError)
  /-- A link that leads back to a directory above it. -/
  | loop (ancestor child : Path)
  | system (error : SystemError)
  /-- A pattern that cannot be read. -/
  | pattern (text : Option String) (reason : String)
  | unknownType (name : String)
  | badDefinition

namespace WalkError

/-- The path that the error is about. -/
def failedPath? : WalkError → Option Path
  | .atPath path _ => some path
  | .loop _ child => some child
  | .atDepth _ error => error.failedPath?
  | .atLine _ error => error.failedPath?
  | _ => none

/-- Is this about a link that leads back? -/
def isLoop : WalkError → Bool
  | .loop .. => true
  | .atDepth _ error => error.isLoop
  | .atPath _ error => error.isLoop
  | _ => false

/-- The name of the entry that the error is about, if it is not about the directory. -/
def entryName? (error : WalkError) (dir : Path) : Option Bytes :=
  (error.failedPath?.filter fun path => !path.same dir).bind Path.fileName?

/-- The error of the system behind the error. -/
def systemError? : WalkError → Option SystemError
  | .several [error] => error.systemError?
  | .atLine _ error => error.systemError?
  | .atPath _ error => error.systemError?
  | .atDepth _ error => error.systemError?
  | .system error => some error
  | _ => none

mutual

def message : WalkError → String
  | .several errors => "\n".intercalate (messages errors)
  | .atLine line error => "line " ++ toString line ++ ": " ++ error.message
  | .atPath path error => path.display ++ ": " ++ error.message
  | .atDepth _ error => error.message
  | .loop ancestor child =>
    "File system loop found: " ++ child.display ++ " points to an ancestor " ++ ancestor.display
  | .system error => error.message
  | .pattern none reason => reason
  | .pattern (some text) reason => "error parsing glob '" ++ text ++ "': " ++ reason
  | .unknownType name => "unrecognized file type: " ++ name
  | .badDefinition => "invalid definition (format is type:glob, e.g., html:*.html)"

def messages : List WalkError → List String
  | [] => []
  | error :: errors => error.message :: messages errors

end

end WalkError

/-- What the system says that something is. -/
inductive FileType where
  | directory
  | regular
  /-- A pipe, a socket, a device. -/
  | special
  deriving DecidableEq

/-- The kind of an entry. Without a type it is of no use. -/
def EntryKind.ofType : Option FileType → EntryKind
  | some .directory => .directory
  | some .regular => .file
  | _ => .other

/-- Something that a walk came by. -/
structure Walked where
  /-- The number of steps from the start of the walk. -/
  depth : Nat
  name : Bytes
  /-- What it is, links followed. -/
  type : Option FileType
  deriving DecidableEq

end KeywordSurvey
