import KeywordSurvey.FileSystem.Basic
import KeywordSurvey.SystemError

/-!
# From paths to places

A path is followed component by component; each needs a directory to start from. A link on the
way is replaced by the path that it holds. So is one at the end, if it is to be followed or the
path goes on behind it, be it only with a slash. Too many links in one path, and paths or names
that are too long, are refused.
-/

namespace KeywordSurvey

namespace FileSystem

/-- The system's numbers for what can go wrong. -/
def noEntry : Nat := 2

/-- A directory is needed, and there is something else. -/
def notDirectory : Nat := 20

/-- There is a directory, and something else is needed. -/
def isDirectoryError : Nat := 21

def nameTooLong : Nat := 36

def tooManyLinks : Nat := 40

/-- So many links may be followed in one path. -/
def mostLinks : Nat := 40

/-- The longest name, in bytes. -/
def longestName : Nat := 255

/-- The longest path that the system is asked about, in bytes. -/
def longestPath : Nat := 4095

/-- The components of a path, without the empty ones. A slash at the end asks for a directory, as a
dot behind it does. -/
def steps (path : Bytes) : List Bytes :=
  let names := (Path.pieces path).filter fun name => !name.isEmpty
  if path.getLast? == some Path.slash then names ++ [Path.here] else names

/-- Where following components comes to a stop. -/
inductive Stop where
  | arrived (place : Place)
  /-- At a link in a directory, with components left. -/
  | atLink (directory : Place) (target : Bytes) (rest : List Bytes)
  | refused (errorNumber : Nat)

/-- Follows components from a place up to the first link that has to be followed. -/
def walk (fs : FileSystem) (follow : Bool) : Place → List Bytes → Stop
  | place, [] => .arrived place
  | place, name :: rest =>
    match fs.node? place with
    | some .directory =>
      if name = Path.here then walk fs follow place rest
      else if name = Path.up then walk fs follow place.dropLast rest
      else if longestName < name.length then .refused nameTooLong
      else
        match fs.node? (place ++ [name]) with
        | none => .refused noEntry
        | some (.link target) =>
          if follow || !rest.isEmpty then .atLink place target rest
          else .arrived (place ++ [name])
        | some _ => walk fs follow (place ++ [name]) rest
    | some _ => .refused notDirectory
    | none => .refused noEntry

/-- Where a path starts. -/
def startOf (path : Bytes) (directory : Place) : Place :=
  if path.head? == some Path.slash then [] else directory

/-- Follows components from a place, with so many links at most. -/
def resolve (fs : FileSystem) (follow : Bool) : Nat → Place → List Bytes → Except Nat Place
  | links, place, names =>
    match walk fs follow place names with
    | .arrived place => .ok place
    | .refused n => .error n
    | .atLink directory target rest =>
      match links with
      | 0 => .error tooManyLinks
      | links + 1 => resolve fs follow links (startOf target directory) (steps target ++ rest)

/-- The place of a path, whatever its length. -/
def placeOf (fs : FileSystem) (follow : Bool) (path : Path) : Except SystemError Place :=
  if path.bytes.contains 0 then .error .zeroByte
  else if path.bytes.isEmpty then .error (.number noEntry)
  else
    (fs.resolve follow mostLinks (startOf path.bytes fs.current) (steps path.bytes)).mapError
      .number

/-- The place and the node of a path, links followed, as the system finds them. -/
def find (fs : FileSystem) (path : Path) : Except SystemError (Place × Node) :=
  if path.bytes.contains 0 then .error .zeroByte
  else if longestPath < path.bytes.length then .error (.number nameTooLong)
  else do
    let place ← fs.placeOf true path
    match fs.node? place with
    | some node => .ok (place, node)
    | none => .error (.number noEntry)

end FileSystem

end KeywordSurvey
