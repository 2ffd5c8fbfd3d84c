import KeywordSurvey.SourceTree.Basic

/-!
# Trees held in memory

A tree that is put together by hand. Its paths are compared byte by byte. Directories keep their
entries in the order in which they were added, repeated ones included, and any question about a
path can be made to fail.
-/

namespace KeywordSurvey

/-- The questions that can be made to fail. -/
inductive Question where
  | list
  | contents
  | size
  | identity
  deriving DecidableEq

/-- A tree in memory. -/
structure MemoryTree where
  directories : List (Path × List Entry)
  files : List (Path × SourceFile)
  /-- Identities other than the path itself. -/
  aliases : List (Path × Path)
  planned : List ((Path × Question) × Failure)

namespace MemoryTree

/-- Nothing at all. -/
def empty : MemoryTree := ⟨[], [], [], []⟩

/-- The associations with `key` bound to `value`, in the place where it was bound before. -/
def bind {α β : Type} [DecidableEq α] (key : α) (value : β) : List (α × β) → List (α × β)
  | [] => [(key, value)]
  | (k, v) :: rest => if k = key then (key, value) :: rest else (k, v) :: bind key value rest

/-- The associations without `key`. -/
def unbind {α β : Type} [DecidableEq α] (key : α) (all : List (α × β)) : List (α × β) :=
  all.filter fun binding => binding.1 != key

/-- Splits a path at its last slash, unless that is its first byte. -/
def split? (p : Path) : Option (Path × Bytes) :=
  let backwards := p.bytes.reverse
  match backwards.dropWhile (· != Path.slash) with
  | [] => none
  | _ :: front =>
    if front.isEmpty then none
    else some (⟨front.reverse⟩, (backwards.takeWhile (· != Path.slash)).reverse)

/-- The part before the last slash is shorter than the path. -/
theorem split?_shorter {p parent : Path} {name : Bytes} (h : split? p = some (parent, name)) :
    parent.bytes.length < p.bytes.length := by
  unfold split? at h
  simp only at h
  split at h
  · cases h
  · next byte front hdrop =>
    split at h
    · cases h
    · simp only [Option.some.injEq, Prod.mk.injEq] at h
      obtain ⟨rfl, -⟩ := h
      have hle := (List.dropWhile_suffix (fun b => b != Path.slash)
        (l := p.bytes.reverse)).length_le
      rw [hdrop] at hle
      simp only [List.length_cons, List.length_reverse] at hle ⊢
      omega

/-- Adds an entry to a directory, which becomes one if it was none. -/
def addEntry (t : MemoryTree) (dir : Path) (entry : Entry) : MemoryTree :=
  { t with directories := bind dir ((t.directories.lookup dir).getD [] ++ [entry]) t.directories }

/-- Makes a directory, and the directories above it that are missing. A new directory becomes an
entry of the one above it. -/
def makeDirectory (t : MemoryTree) (dir : Path) : MemoryTree :=
  if (t.directories.lookup dir).isSome then t
  else
    let made := { t with directories := bind dir [] t.directories }
    match _split : split? dir with
    | none => made
    | some (parent, name) => (makeDirectory made parent).addEntry parent ⟨name, .directory⟩
termination_by dir.bytes.length
decreasing_by exact split?_shorter (by assumption)

/-- Puts a file under a path. A new file becomes an entry of the directory above it. -/
def putFile (t : MemoryTree) (path : Path) (file : SourceFile) : MemoryTree :=
  let put := { t with files := bind path file t.files }
  if (t.files.lookup path).isSome then put
  else
    match split? path with
    | none => put
    | some (parent, name) => (put.makeDirectory parent).addEntry parent ⟨name, .file⟩

/-- Forgets what lies under a path. Entries that lead to it stay. -/
def forget (t : MemoryTree) (path : Path) : MemoryTree :=
  { t with directories := unbind path t.directories, files := unbind path t.files }

/-- Gives a path an identity. -/
def identify (t : MemoryTree) (path target : Path) : MemoryTree :=
  { t with aliases := bind path target t.aliases }

/-- Makes a question about a path fail. -/
def plan (t : MemoryTree) (path : Path) (question : Question) (failure : Failure) : MemoryTree :=
  { t with planned := bind (path, question) failure t.planned }

/-- Drops all planned failures of a path. -/
def heal (t : MemoryTree) (path : Path) : MemoryTree :=
  { t with planned := t.planned.filter fun entry => entry.1.1 != path }

/-- The identity of a path, if it is not made to fail. -/
def identityOf (t : MemoryTree) (path : Path) : Path := (t.aliases.lookup path).getD path

/-- The answer to a question, unless it is made to fail. -/
def unlessPlanned {α : Type} (t : MemoryTree) (path : Path) (question : Question)
    (answer : Except Failure α) : Except Failure α :=
  match t.planned.lookup (path, question) with
  | some failure => .error failure
  | none => answer

/-- The failure to find a directory. -/
def noDirectory (path : Path) : Failure := .of (.fileSystem "read_dir" path (.sort .notFound))

/-- The failure to find a file. -/
def noFile (path : Path) : Failure := .of (.unreadableFile path (.sort .notFound))

/-- The entries of a directory. -/
def list (t : MemoryTree) (path : Path) : Except Failure (List Entry) :=
  t.unlessPlanned path .list
    (match t.directories.lookup path with
    | some entries => .ok entries
    | none => .error (noDirectory path))

/-- What `pick` says of a file. -/
def ask {α : Type} (t : MemoryTree) (question : Question) (pick : SourceFile → α) (path : Path) :
    Except Failure α :=
  t.unlessPlanned path question
    (match t.files.lookup path with
    | some file => .ok (pick file)
    | none => .error (noFile path))

/-- The answers of the tree. -/
def answers (t : MemoryTree) : SourceTree where
  list := t.list
  isDirectory path := (t.directories.lookup path).isSome
  identity path := t.unlessPlanned path .identity (.ok (t.identityOf path))
  contents := t.ask .contents SourceFile.text
  size := t.ask .size SourceFile.size

theorem lookup_mem {α β : Type} [BEq α] [LawfulBEq α] {key : α} {value : β}
    {all : List (α × β)} (h : all.lookup key = some value) : (key, value) ∈ all := by
  obtain ⟨before, after, rfl, -⟩ := List.lookup_eq_some_iff.mp h
  exact List.mem_append_right before List.mem_cons_self

theorem eq_of_unlessPlanned {α : Type} {t : MemoryTree} {path : Path} {question : Question}
    {answer : Except Failure α} {a : α} (h : t.unlessPlanned path question answer = .ok a) :
    answer = .ok a := by
  unfold unlessPlanned at h
  split at h
  · cases h
  · exact h

/-- A tree in memory, with the identities of its directories. -/
def bounded (t : MemoryTree) : BoundedTree where
  toSourceTree := t.answers
  identities := t.directories.map fun binding => t.identityOf binding.1
  covers := by
    intro dir identity entries hidentity hlist
    have hid := eq_of_unlessPlanned hidentity
    cases hid
    have hls := eq_of_unlessPlanned hlist
    split at hls
    · next found hfound =>
      exact ⟨t.identityOf dir, List.mem_map.mpr ⟨(dir, found), lookup_mem hfound, rfl⟩,
        Path.same_refl _⟩
    · cases hls

end MemoryTree

end KeywordSurvey
