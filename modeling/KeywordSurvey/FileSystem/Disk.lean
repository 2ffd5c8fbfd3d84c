import KeywordSurvey.FileSystem.Walker
import KeywordSurvey.SourceTree.Basic

/-!
# Disks as source trees

A disk is what the system and a walker say about paths, whatever they say. It answers the five
questions of a source tree. Links are followed, so an entry of a directory counts as what it leads
to. One bad entry does not spoil a listing: a link that leads nowhere is an entry of no use, and
one that leads back to the listed directory is a directory. Only an error that names no entry is a
failure to list.
-/

namespace KeywordSurvey

/-- The system and the walker. -/
structure Disk where
  /-- What a walk of one step comes by, the directory itself included. -/
  walk : Path → List (Except WalkError Walked)
  /-- The text of an error of the walker. -/
  describe : WalkError → String
  /-- The error of the system behind an error of the walker. -/
  systemError? : WalkError → Option SystemError
  isDirectory : Path → Bool
  /-- The path of the place that a path leads to. -/
  resolve : Path → Except SystemError Path
  read : Path → Except SystemError Bytes
  size : Path → Except SystemError Count

/-- What an entry of a listing came from. -/
structure Found where
  entry : Entry
  /-- Could the entry be told without trouble? -/
  isResolved : Bool
  deriving DecidableEq

namespace Disk

/-- The failure to do something about a directory. -/
def directoryFailure (operation : String) (dir : Path) (error : SystemError) : Failure :=
  .of (.fileSystem operation dir error)

/-- The failure to read a file or its size. -/
def fileFailure (path : Path) (error : SystemError) : Failure := .of (.unreadableFile path error)

/-- The failure to list a directory. -/
def listFailure (disk : Disk) (dir : Path) (error : WalkError) : Failure :=
  directoryFailure "read_dir" dir
    ((disk.systemError? error).getD (.other (disk.describe error)))

/-- The entry for an error that names one. -/
def unresolvedEntry (error : WalkError) (name : Bytes) : Entry :=
  ⟨name, if error.isLoop then .directory else .other⟩

/-- What becomes of something that a walk came by. The directory itself is no entry. -/
def found (disk : Disk) (dir : Path) : Except WalkError Walked → Except Failure (Option Found)
  | .ok item =>
    .ok (if item.depth = 0 then none else some ⟨⟨item.name, .ofType item.type⟩, true⟩)
  | .error e =>
    match e.entryName? dir with
    | some name => .ok (some ⟨unresolvedEntry e name, false⟩)
    | none => .error (disk.listFailure dir e)

/-- Everything that a directory holds. -/
def inspect (disk : Disk) (dir : Path) : Except Failure (List Found) :=
  ((disk.walk dir).mapM (disk.found dir)).map List.reduceOption

/-- The entries of a directory. -/
def list (disk : Disk) (dir : Path) : Except Failure (List Entry) :=
  (disk.inspect dir).map (·.map Found.entry)

/-- The number of entries of a directory that could not be told without trouble. -/
def unresolved (disk : Disk) (dir : Path) : Nat :=
  match disk.inspect dir with
  | .ok found => (found.filter fun f => !f.isResolved).length
  | .error _ => 0

/-- The answers of the disk. -/
def answers (disk : Disk) : SourceTree where
  list := disk.list
  isDirectory := disk.isDirectory
  identity dir := (disk.resolve dir).mapError (directoryFailure "canonicalize" dir)
  contents path := (disk.read path).mapError (fileFailure path)
  size path := (disk.size path).mapError (fileFailure path)

end Disk

end KeywordSurvey
