import Mathlib.Algebra.BigOperators.Group.List.Basic
import Mathlib.Algebra.GroupWithZero.Nat
import KeywordSurvey.Exploration.Pool

/-!
# What tasks come to

A task that is under way comes to a result whatever moves next (`Plan.Ends`): a
slot that is filled counts for its result, one that is not for what its task is
going to leave there. No move changes that, and each of them takes one off the
number of moves that are left (`Plan.ends_iff_of_moves`). So no row of moves is
endless, and only a task that is done has none left.
-/

namespace KeywordSurvey

namespace FileTask

variable (tree : SourceTree)

/-- The file, as it will have been examined. -/
def finish : FileTask → ExaminedFile
  | waiting path => ⟨path, tree.examine path⟩
  | busy path => ⟨path, tree.examine path⟩
  | done file => file

/-- The number of moves that are left. -/
def moves : FileTask → Nat
  | waiting _ => 2
  | busy _ => 1
  | done _ => 0

theorem map_finish_done (files : List ExaminedFile) :
    (files.map done).map (finish tree) = files := by
  simp [Function.comp_def, finish]

theorem sum_moves_done (files : List ExaminedFile) : ((files.map done).map moves).sum = 0 := by
  simp [Function.comp_def, moves]

/-- A file that is examined has no moves left. -/
theorem exists_done {files : List FileTask} (h : ∀ file ∈ files, file.moves = 0) :
    ∃ examined : List ExaminedFile, files = examined.map done := by
  induction files with
  | nil => exact ⟨[], rfl⟩
  | cons file files ih =>
    obtain ⟨examined, rfl⟩ := ih fun file hfile => h file (List.mem_cons_of_mem _ hfile)
    have hnone := h file List.mem_cons_self
    cases file with
    | waiting | busy => cases hnone
    | done file => exact ⟨file :: examined, rfl⟩

end FileTask

/-- A task, what it comes to, and after how many moves. -/
structure Prospect where
  task : FolderTask
  result : Except Abort Survey
  moves : Nat

namespace Plan

variable {plan : Plan} {tree : SourceTree} {jobs : Nat} {lineage : List Path} {dir : Path}
  {own : Report × List Skip} {names : List Bytes} {task task' last : FolderTask}
  {r : Except Abort Survey} {n : Nat}

/-- What a task comes to, and after how many moves, if it is worked on from the
left to the right. -/
inductive Ends (plan : Plan) (tree : SourceTree) : FolderTask → Except Abort Survey → Nat → Prop
  | done {r : Except Abort Survey} : Ends plan tree (.done r) r 0
  | waiting {lineage : List Path} {dir : Path} {r : Except Abort Survey} {n : Nat} :
      Ends plan tree (.busy lineage dir) r n → Ends plan tree (.waiting lineage dir) r (n + 1)
  | busy {lineage : List Path} {dir : Path} {r : Except Abort Survey} {n : Nat} :
      Ends plan tree (plan.enter tree lineage dir) r n →
      Ends plan tree (.busy lineage dir) r (n + 1)
  | examining {lineage : List Path} {dir : Path} {files : List FileTask} {names : List Bytes}
      {r : Except Abort Survey} {n m : Nat} :
      Ends plan tree (plan.descend lineage dir names (files.map (FileTask.finish tree))) r n →
      m = (files.map FileTask.moves).sum + n + 1 →
      Ends plan tree (.examining lineage dir files names) r m
  | descending {dir : Path} {own : Report × List Skip} {tasks : List FolderTask}
      {subs : List Prospect} {r : Except Abort Survey} {n : Nat} :
      (∀ s ∈ subs, Ends plan tree s.task s.result s.moves) →
      tasks = subs.map Prospect.task →
      r = FolderTask.conclude dir own (subs.map Prospect.result) →
      n = (subs.map Prospect.moves).sum + 1 →
      Ends plan tree (.descending dir own tasks) r n

/-! ## One equation for each kind of task -/

theorem ends_done_iff {r' : Except Abort Survey} :
    plan.Ends tree (.done r') r n ↔ r = r' ∧ n = 0 := by
  constructor
  · intro h
    cases h
    exact ⟨rfl, rfl⟩
  · rintro ⟨rfl, rfl⟩
    exact .done

theorem ends_examining_iff {files : List FileTask} :
    plan.Ends tree (.examining lineage dir files names) r n ↔
      ∃ m, plan.Ends tree (plan.descend lineage dir names (files.map (FileTask.finish tree))) r m ∧
        n = (files.map FileTask.moves).sum + m + 1 := by
  constructor
  · intro h
    cases h with
    | examining h hn => exact ⟨_, h, hn⟩
  · rintro ⟨m, h, hn⟩
    exact .examining h hn

/-- A directory whose subdirectories are surveyed, seen from one of them. -/
theorem ends_descending_iff {before after : List FolderTask} :
    plan.Ends tree (.descending dir own (before ++ task :: after)) r n ↔
      ∃ (left right : List Prospect) (result : Except Abort Survey) (moves : Nat),
        (∀ s ∈ left ++ right, plan.Ends tree s.task s.result s.moves) ∧
        before = left.map Prospect.task ∧ after = right.map Prospect.task ∧
        plan.Ends tree task result moves ∧
        r = FolderTask.conclude dir own
          (left.map Prospect.result ++ result :: right.map Prospect.result) ∧
        n = (left.map Prospect.moves).sum + (moves + (right.map Prospect.moves).sum) + 1 := by
  constructor
  · intro h
    cases h with
    | @descending _ _ _ subs _ _ hsubs htasks hr hn =>
      obtain ⟨left, rest, rfl, rfl, hrest⟩ := List.map_eq_append_iff.mp htasks.symm
      obtain ⟨s, right, rfl, rfl, rfl⟩ := List.map_eq_cons_iff.mp hrest
      refine ⟨left, right, s.result, s.moves, fun u hu => hsubs u ?_, rfl, rfl,
        hsubs s (by simp), ?_, ?_⟩
      · rcases List.mem_append.mp hu with hu | hu <;> simp [hu]
      · rw [hr, List.map_append, List.map_cons]
      · rw [hn, List.map_append, List.map_cons, List.sum_append, List.sum_cons]
  · rintro ⟨left, right, result, moves, hsubs, rfl, rfl, htask, rfl, rfl⟩
    refine @Ends.descending _ _ _ _ _ (left ++ ⟨task, result, moves⟩ :: right) _ _
      (fun s hs => ?_) (by simp) (by simp) (by simp)
    rcases List.mem_append.mp hs with hs | hs
    · exact hsubs s (List.mem_append_left right hs)
    · rcases List.mem_cons.mp hs with rfl | hs
      · exact htask
      · exact hsubs s (List.mem_append_right left hs)

/-- Subdirectories that are done come to what they are. -/
theorem ends_descending_done_iff {results : List (Except Abort Survey)} :
    plan.Ends tree (.descending dir own (results.map .done)) r n ↔
      r = FolderTask.conclude dir own results ∧ n = 1 := by
  constructor
  · intro h
    cases h with
    | @descending _ _ _ subs _ _ hsubs htasks hr hn =>
      have hdone : subs.map Prospect.result = results ∧ (subs.map Prospect.moves).sum = 0 := by
        clear hr hn
        induction subs generalizing results with
        | nil =>
          rw [List.map_nil, List.map_eq_nil_iff] at htasks
          exact ⟨htasks.symm, rfl⟩
        | cons s subs ih =>
          rw [List.map_cons, List.map_eq_cons_iff] at htasks
          obtain ⟨result, rest, rfl, htask, hrest⟩ := htasks
          obtain ⟨hresults, hmoves⟩ := ih (fun u hu => hsubs u (List.mem_cons_of_mem s hu)) hrest
          obtain ⟨hresult, hzero⟩ := ends_done_iff.mp (htask ▸ hsubs s List.mem_cons_self)
          simp [hresults, hmoves, hresult, hzero]
      exact ⟨by rw [hr, hdone.1], by rw [hn, hdone.2]⟩
  · rintro ⟨rfl, rfl⟩
    refine @Ends.descending _ _ _ _ _ (results.map fun result => ⟨.done result, result, 0⟩) _ _
      (fun s hs => ?_) ?_ ?_ ?_
    · obtain ⟨result, -, rfl⟩ := List.mem_map.mp hs
      exact .done
    · simp [Function.comp_def]
    · simp [Function.comp_def]
    · simp [Function.comp_def]

/-! ## Moves -/

/-- A task with no moves left is done, and does not move. -/
theorem Ends.not_moves (h : plan.Ends tree task r 0) : ¬ plan.Moves tree task task' := by
  intro hmove
  cases h with
  | done => cases hmove
  | examining _ hm => omega
  | descending _ _ _ hm => omega

/-- **A move takes one off what is left and changes nothing else.** -/
theorem ends_iff_of_moves (h : plan.Moves tree task task') :
    plan.Ends tree task r (n + 1) ↔ plan.Ends tree task' r n := by
  induction h generalizing r n with
  | start =>
    constructor
    · intro h
      cases h
      assumption
    · exact .waiting
  | enter =>
    constructor
    · intro h
      cases h
      assumption
    · exact .busy
  | startFile | finishFile =>
    simp only [ends_examining_iff, List.map_append, List.map_cons, FileTask.finish,
      List.sum_append, List.sum_cons, FileTask.moves]
    refine exists_congr fun m => and_congr_right fun _ => ?_
    omega
  | descend =>
    rw [ends_examining_iff, FileTask.map_finish_done, FileTask.sum_moves_done]
    constructor
    · rintro ⟨m, hm, hn⟩
      obtain rfl : n = m := by omega
      exact hm
    · exact fun h => ⟨n, h, by omega⟩
  | @subtask dir own before after task task' hmove ih =>
    rw [ends_descending_iff, ends_descending_iff]
    constructor
    · rintro ⟨left, right, result, moves, hsubs, hleft, hright, htask, hr, hn⟩
      cases moves with
      | zero => exact absurd hmove htask.not_moves
      | succ moves =>
        exact ⟨left, right, result, moves, hsubs, hleft, hright, ih.mp htask, hr, by omega⟩
    · rintro ⟨left, right, result, moves, hsubs, hleft, hright, htask, hr, hn⟩
      exact ⟨left, right, result, moves + 1, hsubs, hleft, hright, ih.mpr htask, hr, by omega⟩
  | conclude =>
    rw [ends_descending_done_iff, ends_done_iff]
    exact and_congr_right fun _ => by omega

theorem Ends.exists_of_moves (h : plan.Ends tree task r n) (hmove : plan.Moves tree task task') :
    ∃ left, n = left + 1 ∧ plan.Ends tree task' r left := by
  cases n with
  | zero => exact absurd hmove h.not_moves
  | succ left => exact ⟨left, rfl, (ends_iff_of_moves hmove).mp h⟩

/-! ## Workers -/

theorem workers_enter (plan : Plan) (tree : SourceTree) (lineage : List Path) (dir : Path) :
    (plan.enter tree lineage dir).workers = 0 := by
  unfold enter
  split
  · rfl
  split
  · rfl
  split
  · rfl
  · rw [FolderTask.workers, List.countP_map]
    exact List.countP_eq_zero.mpr fun name _ => Bool.false_ne_true

theorem workersOf_eq_sum (tasks : List FolderTask) :
    FolderTask.workersOf tasks = (tasks.map FolderTask.workers).sum := by
  induction tasks with
  | nil => rfl
  | cons task tasks ih => rw [FolderTask.workersOf, ih, List.map_cons, List.sum_cons]

theorem workers_descend (plan : Plan) (lineage : List Path) (dir : Path) (names : List Bytes)
    (files : List ExaminedFile) : (plan.descend lineage dir names files).workers = 0 := by
  unfold descend
  split
  · rfl
  · simp [FolderTask.workers, workersOf_eq_sum, Function.comp_def]

theorem sum_map_eq_zero {α : Type} {f : α → Nat} {l : List α} (h : ∀ a ∈ l, f a = 0) :
    (l.map f).sum = 0 :=
  List.sum_eq_zero (List.forall_mem_map.mpr h)

/-- A directory moves with one of its subdirectories. If that is idle, the
others should be too, or there may be one more worker than before. -/
theorem exists_subtask_moves {before after : List FolderTask}
    (hmove : plan.Moves tree task task') (hworkers : task'.workers ≤ max task.workers 1)
    (hidle : 0 < task.workers ∨ ∀ other ∈ before ++ after, other.workers = 0) :
    ∃ next, plan.Moves tree (.descending dir own (before ++ task :: after)) next ∧
      next.workers ≤ max (FolderTask.descending dir own (before ++ task :: after)).workers 1 := by
  refine ⟨_, .subtask hmove, ?_⟩
  simp only [FolderTask.workers, workersOf_eq_sum, List.map_append, List.map_cons,
    List.sum_append, List.sum_cons]
  rcases hidle with hbusy | hidle
  · omega
  · have hbefore : (before.map FolderTask.workers).sum = 0 := sum_map_eq_zero fun other ho =>
      hidle other (List.mem_append_left _ ho)
    have hafter : (after.map FolderTask.workers).sum = 0 := sum_map_eq_zero fun other ho =>
      hidle other (List.mem_append_right _ ho)
    omega

/-- **A task is done or can move**, and if it is not idle, then with no more
workers than are at work on it. -/
theorem Ends.exists_moves (h : plan.Ends tree task r n) :
    (task = .done r ∧ n = 0) ∨
      ∃ next, plan.Moves tree task next ∧ next.workers ≤ max task.workers 1 := by
  induction h with
  | done => exact .inl ⟨rfl, rfl⟩
  | waiting => exact .inr ⟨_, .start, Nat.le_refl 1⟩
  | busy => exact .inr ⟨_, .enter, by rw [workers_enter]; exact Nat.zero_le _⟩
  | @examining lineage dir files names r n m =>
    refine .inr ?_
    by_cases hbusy : ∃ path, FileTask.busy path ∈ files
    · -- a worker that is at work finishes
      obtain ⟨path, hpath⟩ := hbusy
      obtain ⟨before, after, rfl⟩ := List.append_of_mem hpath
      refine ⟨_, .finishFile, ?_⟩
      rw [FolderTask.workers, FolderTask.workers, List.countP_append, List.countP_append,
        List.countP_cons_of_neg Bool.false_ne_true, List.countP_cons_of_pos rfl]
      omega
    have hidle : files.countP FileTask.isBusy = 0 := by
      refine List.countP_eq_zero.mpr fun file hfile hwork => ?_
      cases file with
      | busy path => exact hbusy ⟨path, hfile⟩
      | waiting | done => cases hwork
    by_cases hwaiting : ∃ path, FileTask.waiting path ∈ files
    · obtain ⟨path, hpath⟩ := hwaiting
      obtain ⟨before, after, rfl⟩ := List.append_of_mem hpath
      refine ⟨_, .startFile, ?_⟩
      rw [List.countP_append, List.countP_cons_of_neg Bool.false_ne_true] at hidle
      rw [FolderTask.workers, List.countP_append, List.countP_cons_of_pos rfl]
      omega
    · obtain ⟨examined, rfl⟩ := @FileTask.exists_done files fun file hfile => by
        cases file with
        | busy path => exact absurd ⟨path, hfile⟩ hbusy
        | waiting path => exact absurd ⟨path, hfile⟩ hwaiting
        | done => rfl
      exact ⟨_, .descend, by rw [workers_descend]; exact Nat.zero_le _⟩
  | @descending dir own tasks subs r n hsubs htasks hr hn ih =>
    refine .inr ?_
    subst htasks
    by_cases hbusy : ∃ s ∈ subs, 0 < s.task.workers
    · -- below a task that is at work, a worker goes on
      obtain ⟨s, hs, hworkers⟩ := hbusy
      obtain ⟨left, right, rfl⟩ := List.append_of_mem hs
      rcases ih s hs with ⟨hdone, -⟩ | ⟨next, hmove, hnext⟩
      · rw [hdone] at hworkers
        exact absurd hworkers (Nat.lt_irrefl 0)
      rw [List.map_append, List.map_cons]
      exact exists_subtask_moves hmove hnext (.inl hworkers)
    have hidle : ∀ s ∈ subs, s.task.workers = 0 := fun s hs =>
      Nat.eq_zero_of_not_pos fun hpos => hbusy ⟨s, hs, hpos⟩
    by_cases hdone : ∀ s ∈ subs, s.task = .done s.result
    · have htasks : subs.map Prospect.task = (subs.map Prospect.result).map .done := by
        rw [List.map_map]
        exact List.map_congr_left hdone
      rw [htasks]
      exact ⟨_, .conclude, Nat.zero_le _⟩
    · simp only [not_forall] at hdone
      obtain ⟨s, hs, hopen⟩ := hdone
      obtain ⟨left, right, rfl⟩ := List.append_of_mem hs
      rcases ih s hs with ⟨hdone, -⟩ | ⟨next, hmove, hnext⟩
      · exact absurd hdone hopen
      rw [List.map_append, List.map_cons]
      refine exists_subtask_moves hmove hnext (.inr fun task htask => ?_)
      rw [← List.map_append] at htask
      obtain ⟨u, hu, rfl⟩ := List.mem_map.mp htask
      refine hidle u ?_
      rcases List.mem_append.mp hu with hu | hu
      · exact List.mem_append_left _ hu
      · exact List.mem_append_right _ (List.mem_cons_of_mem s hu)

end Plan

end KeywordSurvey
