import KeywordSurvey.FileSystem.Disk
import KeywordSurvey.FileSystem.Resolve

/-!
# File systems as source trees

A file system is a disk: this is what a walk over one of its directories comes by, and what else
the system says about paths. A walk follows links and takes one step. The identity of a directory
is the path of its place.

One directory is listed as empty whatever it holds: the one whose path is a single dash, which
stands for the standard input.
-/

namespace KeywordSurvey

namespace FileSystem

/-- The path that stands for the standard input. -/
def dash : Path := ⟨[0x2D]⟩

/-- What the system says that a node is. -/
def typeOf : Node → FileType
  | .directory => .directory
  | .file _ => .regular
  | .unreadable _ => .regular
  | .link _ => .special
  | .pipe => .special

/-- An error of the system, met so many steps from the start of a walk. -/
def walkError (path : Path) (depth : Nat) (error : SystemError) : WalkError :=
  .atPath path (.atDepth depth (.system (.walking path error)))

/-- What a walk comes by for something in a directory that is listed by a path and lies at a
place. -/
def walkItem (fs : FileSystem) (dir : Path) (place : Place) (name : Bytes) (node : Node) :
    Except WalkError Walked :=
  match node with
  | .link _ =>
    match fs.find (dir.join name) with
    | .error e => .error (walkError (dir.join name) 1 e)
    | .ok (reached, target) =>
      if reached = place then .error (.atDepth 1 (.loop dir (dir.join name)))
      else .ok ⟨1, name, some (typeOf target)⟩
  | _ => .ok ⟨1, name, some (typeOf node)⟩

/-- The start of a walk. -/
def walkStart (dir : Path) (type : Option FileType) : Except WalkError Walked :=
  .ok ⟨0, dir.fileName?.getD dir.bytes, type⟩

/-- A walk of one step. What is no directory holds nothing. -/
def walkOver (fs : FileSystem) (dir : Path) : List (Except WalkError Walked) :=
  if dir.same dash then [walkStart dir none]
  else
    match fs.find dir with
    | .error e => [.error (walkError dir 0 e)]
    | .ok (place, .directory) =>
      walkStart dir (some .directory)
        :: (fs.contents place).map fun item => fs.walkItem dir place item.1 item.2
    | .ok (_, node) => [walkStart dir (some (typeOf node))]

def isDirectory (fs : FileSystem) (path : Path) : Bool :=
  match fs.find path with
  | .ok (_, .directory) => true
  | _ => false

/-- The path of the place that a path leads to, which has to be there. -/
def realPath (fs : FileSystem) (path : Path) : Except SystemError Path := do
  let place ← fs.placeOf true path
  match fs.node? place with
  | some _ => .ok (pathOf place)
  | none => .error (.number noEntry)

/-- The contents of what lies at a place. Nothing comes out of a pipe. -/
def nodeContents : Node → Except SystemError Bytes
  | .file contents => .ok contents
  | .unreadable n => .error (.number n)
  | .directory => .error (.number isDirectoryError)
  | _ => .ok []

/-- The size that is recorded for a directory. -/
def directorySize : Nat := 4096

/-- The size that is recorded for what lies at a place. -/
def nodeSize : Node → Nat
  | .file contents => contents.length
  | .directory => directorySize
  | _ => 0

/-- What the system and the walker say about the file system. A file whose size is no count is too
large for the system. -/
def disk (fs : FileSystem) : Disk where
  walk := fs.walkOver
  describe := WalkError.message
  systemError? := WalkError.systemError?
  isDirectory := fs.isDirectory
  resolve := fs.realPath
  read path := do
    let found ← fs.find path
    nodeContents found.2
  size path := do
    let found ← fs.find path
    match Count.ofNat? (nodeSize found.2) with
    | some size => .ok size
    | none => .error (.number 27)

/-- The answers of the file system. -/
def answers (fs : FileSystem) : SourceTree := fs.disk.answers

/-- The entries of a directory. -/
def list (fs : FileSystem) : Path → Except Failure (List Entry) := fs.answers.list

/-- The path of the place that a path leads to. -/
def identity (fs : FileSystem) : Path → Except Failure Path := fs.answers.identity

/-- The contents of a file. -/
def read (fs : FileSystem) : Path → Except Failure Bytes := fs.answers.contents

/-- The size of a file. -/
def size (fs : FileSystem) : Path → Except Failure Count := fs.answers.size

/-- The number of entries of a directory that could not be told without trouble. -/
def unresolved (fs : FileSystem) (dir : Path) : Nat := fs.disk.unresolved dir

theorem mem_of_node? {fs : FileSystem} {place : Place} {node : Node}
    (h : fs.node? place = some node) : place ∈ fs.nodes.map Prod.fst := by
  obtain ⟨before, after, hsplit, -⟩ := List.lookup_eq_some_iff.mp h
  rw [hsplit, List.map_append, List.map_cons]
  exact List.mem_append_right _ List.mem_cons_self

theorem exists_place_of_realPath {fs : FileSystem} {dir path : Path}
    (h : fs.realPath dir = .ok path) : ∃ place ∈ fs.nodes.map Prod.fst, pathOf place = path := by
  unfold realPath at h
  cases hplace : fs.placeOf true dir with
  | error e => simp [hplace, bind, Except.bind] at h
  | ok place =>
    simp only [hplace, bind, Except.bind] at h
    split at h
    · next node hnode =>
      cases h
      exact ⟨place, mem_of_node? hnode, rfl⟩
    · cases h

theorem realPath_of_identity {fs : FileSystem} {dir path : Path}
    (h : fs.answers.identity dir = .ok path) : fs.realPath dir = .ok path := by
  change (fs.realPath dir).mapError _ = _ at h
  cases hreal : fs.realPath dir with
  | error e => rw [hreal] at h; cases h
  | ok real => rw [hreal] at h; cases h; rfl

/-- A file system, with the paths of its places. -/
def bounded (fs : FileSystem) : BoundedTree where
  toSourceTree := fs.answers
  identities := fs.nodes.map fun binding => pathOf binding.1
  covers := by
    intro dir identity entries hidentity _
    obtain ⟨place, hmem, rfl⟩ := exists_place_of_realPath (realPath_of_identity hidentity)
    obtain ⟨binding, hb, rfl⟩ := List.mem_map.mp hmem
    exact ⟨pathOf binding.1, List.mem_map.mpr ⟨binding, hb, rfl⟩, Path.same_refl _⟩

end FileSystem

end KeywordSurvey
