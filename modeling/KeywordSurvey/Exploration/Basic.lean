import KeywordSurvey.SourceTree.Basic
import KeywordSurvey.Survey

/-!
# Explorations

What a walk through a source tree meets, directory by directory. The walk asks a directory for
its identity, leaves it alone if that is the identity of a directory above it, and otherwise
lists it, examines its files in the order of their names and goes on to its subdirectories, in
the order of theirs.

An exploration holds the answers of the tree and no sums. `Exploration.survey` adds them up, and
decides with the policy whether a failure ends the run.
-/

namespace KeywordSurvey

/-- What to do about a failure that concerns a single path. -/
inductive Policy where
  /-- It ends the run. -/
  | strict
  /-- The path is left out, and the run goes on. -/
  | skip
  deriving DecidableEq

/-- Why a run has no result. -/
inductive Abort where
  /-- A sum did not fit. -/
  | overflow
  | failure (f : Failure)
  deriving DecidableEq

/-- A file that was examined, and what came of it. -/
structure ExaminedFile where
  path : Path
  outcome : Except Failure SourceFile

/-- What was met at a directory. -/
inductive Exploration where
  /-- Its identity or its entries could not be had. -/
  | unlisted (dir : Path) (failure : Failure)
  /-- It is one of the directories above it. -/
  | cycle (dir identity : Path)
  /-- It was listed. Its subdirectories are missing if its files already end the run. -/
  | expanded (dir identity : Path) (files : List ExaminedFile) (subdirs : List Exploration)

namespace Policy

/-- Leaves a path out, or ends the run. -/
def tolerate (policy : Policy) (path : Path) (f : Failure) : Except Abort Skip :=
  if policy = .skip ∧ f.isPathFailure then .ok ⟨path, f.message⟩ else .error (.failure f)

/-- A sum, if it fits. -/
def fitting {α : Type} : Option α → Except Abort α
  | some a => .ok a
  | none => .error .overflow

/-- Takes one file more into the report of a directory. -/
def gather (policy : Policy) (own : Report × List Skip) (file : ExaminedFile) :
    Except Abort (Report × List Skip) :=
  match file.outcome with
  | .ok source => do
    let report ← fitting (FileReport.ofSource? source)
    let total ← fitting (own.1.addFile? report)
    .ok (total, own.2)
  | .error f => do
    let skipped ← policy.tolerate file.path f
    .ok (own.1, own.2 ++ [skipped])

/-- The report of a directory's own files, and the files that were left out. -/
def gatherAll (policy : Policy) (files : List ExaminedFile) : Except Abort (Report × List Skip) :=
  files.foldlM policy.gather (Report.empty, [])

end Policy

/-- The results of all siblings. A sum that does not fit outranks a failure, wherever it is; of the
failures the first one counts. -/
def allResults {α : Type} (results : List (Except Abort α)) : Except Abort (List α) :=
  if results.any (fun r => match r with | .error .overflow => true | _ => false) then
    .error .overflow
  else results.mapM id

namespace Exploration

/-- The survey of a directory that could not be listed. The root of a run has to be listed. -/
def unlistedSurvey (policy : Policy) (isRoot : Bool) (dir : Path) (f : Failure) :
    Except Abort Survey :=
  if isRoot then .error (.failure f)
  else (policy.tolerate dir f).map fun skipped => ⟨Folder.leaf dir, [skipped]⟩

/-- The survey of a directory from its own files and the surveys of its subdirectories. -/
def combine (dir : Path) (own : Report × List Skip) (below : List Survey) : Except Abort Survey := do
  let folder ← Policy.fitting (Folder.assemble? dir own.1 (below.map Survey.root))
  .ok ⟨folder, own.2 ++ below.flatMap Survey.skipped⟩

mutual

/-- Adds up what was met at a directory and below it. -/
def survey (policy : Policy) (isRoot : Bool) : Exploration → Except Abort Survey
  | unlisted dir f => unlistedSurvey policy isRoot dir f
  | cycle dir _ => .ok ⟨Folder.leaf dir, []⟩
  | expanded dir _ files subdirs => do
    let own ← policy.gatherAll files
    let below ← allResults (surveys policy subdirs)
    combine dir own below

/-- The results of several subdirectories. -/
def surveys (policy : Policy) : List Exploration → List (Except Abort Survey)
  | [] => []
  | subdir :: subdirs => survey policy false subdir :: surveys policy subdirs

end

end Exploration

/-- What a run is to do: which files it looks at, and what it does about failures. -/
structure Plan where
  selector : Selector
  policy : Policy

namespace Plan

/-- The files of a directory, examined. -/
def examineAll (plan : Plan) (tree : SourceTree) (dir : Path) (entries : List Entry) :
    List ExaminedFile :=
  (plan.selector.files entries).map fun name =>
    let path := dir.join name
    ⟨path, tree.examine path⟩

/-- Explores a directory and what lies below it, at most so many levels deep; `lineage` holds the
identities of the directories above it, the nearest first. Nothing comes of it if there are more
levels. -/
def explore (plan : Plan) (tree : SourceTree) : Nat → List Path → Path → Option Exploration
  | 0, _, _ => none
  | levels + 1, lineage, dir =>
    match tree.identity dir with
    | .error f => some (.unlisted dir f)
    | .ok identity =>
      if lineage.any identity.same then some (.cycle dir identity)
      else
        match tree.list dir with
        | .error f => some (.unlisted dir f)
        | .ok entries =>
          let files := plan.examineAll tree dir entries
          match plan.policy.gatherAll files with
          | .error _ => some (.expanded dir identity files [])
          | .ok _ =>
            ((subdirectories entries).mapM fun name =>
              plan.explore tree levels (identity :: lineage) (dir.join name)).map
              (.expanded dir identity files)

/-- The failure of a run over something that is no directory. -/
def noRoot (root : Path) : Abort := .failure (.of (.invalidPath root))

/-- Surveys everything below a directory, at most so many levels deep. -/
def run? (plan : Plan) (tree : SourceTree) (levels : Nat) (root : Path) :
    Option (Except Abort Survey) :=
  if tree.isDirectory root then
    (plan.explore tree levels [] root).map (Exploration.survey plan.policy true)
  else some (.error (noRoot root))

end Plan

end KeywordSurvey
