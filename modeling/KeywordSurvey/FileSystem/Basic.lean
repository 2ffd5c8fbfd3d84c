import KeywordSurvey.Path

/-!
# File systems

What lies on a disk. A place is where something really is: the names on the way to it from the
root, without links. At each place there is at most one thing, and everything but the root lies
in a directory.
-/

namespace KeywordSurvey

/-- The names on the way from the root. -/
abbrev Place := List Bytes

/-- What lies at a place. -/
inductive Node where
  | directory
  | file (contents : Bytes)
  /-- A file without a size, whose contents cannot be read; the number says why. -/
  | unreadable (errorNumber : Nat)
  | link (target : Bytes)
  | pipe
  deriving DecidableEq

/-- A file system, seen from the directory that is the current one. -/
structure FileSystem where
  nodes : List (Place × Node)
  current : Place

namespace FileSystem

/-- What lies at a place. -/
def node? (fs : FileSystem) (place : Place) : Option Node := fs.nodes.lookup place

/-- Is there a directory at the place? -/
def hasDirectory (fs : FileSystem) (place : Place) : Bool := fs.node? place == some .directory

/-- The name of what lies at `inner`, if it lies in the directory `outer` itself. -/
def nameIn? (outer inner : Place) : Option Bytes :=
  match inner.getLast? with
  | some name => if inner.dropLast = outer then some name else none
  | none => none

/-- What lies in a directory, with its names. -/
def contents (fs : FileSystem) (place : Place) : List (Bytes × Node) :=
  fs.nodes.filterMap fun binding => (nameIn? place binding.1).map (·, binding.2)

/-- Puts something at a place, instead of what was there. -/
def put (fs : FileSystem) (place : Place) (node : Node) : FileSystem :=
  { fs with nodes := fs.nodes.filter (fun binding => binding.1 != place) ++ [(place, node)] }

/-- Takes away what lies at a place, and everything inside it. -/
def clear (fs : FileSystem) (place : Place) : FileSystem :=
  { fs with nodes := fs.nodes.filter fun binding => !place.isPrefixOf binding.1 }

/-- The path of a place. -/
def pathOf (place : Place) : Path :=
  match place with
  | [] => ⟨[Path.slash]⟩
  | _ => ⟨place.flatMap fun name => Path.slash :: name⟩

/-- A file system with an empty current directory. Elsewhere there is a file that cannot be read:
the memory of the process itself. -/
def fresh : FileSystem where
  nodes :=
    let proc := Utf8.ofString "proc"
    let self := Utf8.ofString "self"
    [([], .directory), ([Utf8.ofString "work"], .directory), ([proc], .directory),
      ([proc, self], .directory), ([proc, self, Utf8.ofString "mem"], .unreadable 5)]
  current := [Utf8.ofString "work"]

end FileSystem

end KeywordSurvey
