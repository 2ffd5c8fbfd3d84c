import KeywordSurvey.Exploration.Basic

/-!
# A pool of workers

The files of a directory can be examined at the same time, and then its subdirectories can be
surveyed at the same time. Each of them is a task with a slot of its own among its siblings, where
it leaves its result; the directory goes on when all slots are filled. Which task moves next is
left open, except that no more of them are under way than there are workers.
-/

namespace KeywordSurvey

/-- Where the task of a file stands. -/
inductive FileTask where
  | waiting (path : Path)
  /-- A worker examines the file. -/
  | busy (path : Path)
  | done (file : ExaminedFile)

/-- Where the task of a directory stands. -/
inductive FolderTask where
  | waiting (lineage : List Path) (dir : Path)
  /-- A worker asks for the identity of the directory and for its entries. -/
  | busy (lineage : List Path) (dir : Path)
  /-- Its files are examined, and then its subdirectories `names` will be surveyed. The lineage
  holds its own identity too. -/
  | examining (lineage : List Path) (dir : Path) (files : List FileTask) (names : List Bytes)
  /-- Its own files have been added up, and its subdirectories are surveyed. -/
  | descending (dir : Path) (own : Report × List Skip) (subdirs : List FolderTask)
  | done (result : Except Abort Survey)

/-- Is a worker at work on the task? -/
def FileTask.isBusy : FileTask → Bool
  | busy _ => true
  | _ => false

namespace FolderTask

mutual

/-- How many workers are at work on the task and on those below it. -/
def workers : FolderTask → Nat
  | waiting _ _ => 0
  | busy _ _ => 1
  | examining _ _ files _ => files.countP FileTask.isBusy
  | descending _ _ subdirs => workersOf subdirs
  | done _ => 0

/-- How many workers are at work on several tasks. -/
def workersOf : List FolderTask → Nat
  | [] => 0
  | task :: tasks => workers task + workersOf tasks

end

/-- The result of a directory from those of its subdirectories. -/
def conclude (dir : Path) (own : Report × List Skip) (results : List (Except Abort Survey)) :
    Except Abort Survey := do
  let below ← allResults results
  Exploration.combine dir own below

end FolderTask

namespace Plan

/-- What becomes of a directory once a worker has asked for its identity and its entries. -/
def enter (plan : Plan) (tree : SourceTree) (lineage : List Path) (dir : Path) : FolderTask :=
  match tree.identity dir with
  | .error f => .done (Exploration.unlistedSurvey plan.policy lineage.isEmpty dir f)
  | .ok identity =>
    if lineage.any identity.same then .done (.ok ⟨Folder.leaf dir, []⟩)
    else
      match tree.list dir with
      | .error f => .done (Exploration.unlistedSurvey plan.policy lineage.isEmpty dir f)
      | .ok entries =>
        .examining (identity :: lineage) dir
          ((plan.selector.files entries).map fun name => .waiting (dir.join name))
          (subdirectories entries)

/-- What becomes of a directory once all of its files have been examined. -/
def descend (plan : Plan) (lineage : List Path) (dir : Path) (names : List Bytes)
    (files : List ExaminedFile) : FolderTask :=
  match plan.policy.gatherAll files with
  | .error abort => .done (.error abort)
  | .ok own => .descending dir own (names.map fun name => .waiting lineage (dir.join name))

/-- One move of one task. -/
inductive Moves (plan : Plan) (tree : SourceTree) : FolderTask → FolderTask → Prop
  | start {lineage : List Path} {dir : Path} :
      Moves plan tree (.waiting lineage dir) (.busy lineage dir)
  | enter {lineage : List Path} {dir : Path} :
      Moves plan tree (.busy lineage dir) (plan.enter tree lineage dir)
  | startFile {lineage : List Path} {dir : Path} {before after : List FileTask} {path : Path}
      {names : List Bytes} :
      Moves plan tree (.examining lineage dir (before ++ .waiting path :: after) names)
        (.examining lineage dir (before ++ .busy path :: after) names)
  | finishFile {lineage : List Path} {dir : Path} {before after : List FileTask} {path : Path}
      {names : List Bytes} :
      Moves plan tree (.examining lineage dir (before ++ .busy path :: after) names)
        (.examining lineage dir (before ++ .done ⟨path, tree.examine path⟩ :: after) names)
  /-- All files are examined. -/
  | descend {lineage : List Path} {dir : Path} {files : List ExaminedFile} {names : List Bytes} :
      Moves plan tree (.examining lineage dir (files.map .done) names)
        (plan.descend lineage dir names files)
  /-- A task below moves. -/
  | subtask {dir : Path} {own : Report × List Skip} {before after : List FolderTask}
      {task task' : FolderTask} :
      Moves plan tree task task' →
      Moves plan tree (.descending dir own (before ++ task :: after))
        (.descending dir own (before ++ task' :: after))
  /-- All subdirectories are surveyed. -/
  | conclude {dir : Path} {own : Report × List Skip} {results : List (Except Abort Survey)} :
      Moves plan tree (.descending dir own (results.map .done))
        (.done (FolderTask.conclude dir own results))

/-- A move that a pool with so many workers can make. -/
def PoolMoves (plan : Plan) (tree : SourceTree) (jobs : Nat) (task task' : FolderTask) : Prop :=
  plan.Moves tree task task' ∧ task'.workers ≤ jobs

/-- So many moves of a pool, one after the other. -/
inductive Interleaving (plan : Plan) (tree : SourceTree) (jobs : Nat) :
    Nat → FolderTask → FolderTask → Prop
  | none {task : FolderTask} : Interleaving plan tree jobs 0 task task
  | move {moves : Nat} {task next last : FolderTask} :
      plan.PoolMoves tree jobs task next → Interleaving plan tree jobs moves next last →
      Interleaving plan tree jobs (moves + 1) task last

/-- A pool can come to the outcome. -/
def PoolReturns (plan : Plan) (tree : SourceTree) (jobs : Nat) (root : Path)
    (outcome : Except Abort Survey) : Prop :=
  if tree.isDirectory root then
    ∃ moves, plan.Interleaving tree jobs moves (.waiting [] root) (.done outcome)
  else outcome = .error (noRoot root)

end Plan

end KeywordSurvey
