import KeywordSurvey.Report
import KeywordSurvey.Selector
import KeywordSurvey.SourceTree.Entry

/-!
# Source trees

A source tree answers five questions about paths. Nothing ties the answers together: a directory
may be listed and have no identity, a file may have a size and no contents. Directories that are
reached by several paths share an identity.

A tree is bounded if its directories have only finitely many identities between them, however
many paths lead to them.
-/

namespace KeywordSurvey

/-- The five questions. -/
structure SourceTree where
  /-- The entries of a directory, in any order. -/
  list : Path → Except Failure (List Entry)
  isDirectory : Path → Bool
  /-- What is the same for all paths that lead to one directory. -/
  identity : Path → Except Failure Path
  contents : Path → Except Failure Bytes
  /-- The size that is recorded for a file. -/
  size : Path → Except Failure Count

namespace SourceTree

/-- The file under a path. Its size is asked for first. -/
def examine (tree : SourceTree) (path : Path) : Except Failure SourceFile := do
  let size ← tree.size path
  let text ← tree.contents path
  .ok ⟨size, text⟩

/-- The report of the file under a path, if its counts fit. -/
def classify? (tree : SourceTree) (path : Path) : Except Failure (Option FileReport) :=
  (tree.examine path).map FileReport.ofSource?

end SourceTree

/-- A tree whose directories have no identities but these. -/
structure BoundedTree extends SourceTree where
  identities : List Path
  covers : ∀ {dir identity : Path} {entries : List Entry},
    toSourceTree.identity dir = .ok identity → toSourceTree.list dir = .ok entries →
      ∃ known ∈ identities, known.same identity = true

/-- Names in the order of their bytes. -/
def sortNames (names : List Bytes) : List Bytes := names.mergeSort fun a b => decide (a ≤ b)

/-- Is this a file that the selector takes? -/
def Selector.takes (s : Selector) (e : Entry) : Bool :=
  match e.kind with
  | .file => s.selects e.name
  | _ => false

/-- The names of the files that the selector takes, in order. -/
def Selector.files (s : Selector) (entries : List Entry) : List Bytes :=
  sortNames ((entries.filter s.takes).map Entry.name)

/-- The names of the directories among the entries, in order. -/
def subdirectories (entries : List Entry) : List Bytes :=
  sortNames ((entries.filter fun e => e.kind == .directory).map Entry.name)

end KeywordSurvey
