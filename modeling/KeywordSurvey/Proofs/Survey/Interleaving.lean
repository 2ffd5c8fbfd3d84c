import KeywordSurvey.Proofs.Exploration.Tasks
import KeywordSurvey.Proofs.Survey.Outcomes

/-!
# Interleavings

A pool of workers comes to the outcome of a run that does one thing after the
other, whatever its moves (`Plan.returnsWith_iff_returns`): what its task comes
to is the survey of what a walk meets.
-/

namespace KeywordSurvey

namespace Plan

variable {plan : Plan} {tree : SourceTree} {jobs : Nat} {lineage : List Path} {dir : Path}
  {own : Report × List Skip} {task last : FolderTask} {r : Except Abort Survey} {n : Nat}

/-! ## One thing after the other -/

/-- What becomes of a directory that is entered, and what a walk that does one
thing after the other meets there. -/
theorem enter_cases (plan : Plan) (tree : SourceTree) (lineage : List Path) (dir : Path) :
    (∃ e, (∀ levels, plan.explore tree (levels + 1) lineage dir = some e) ∧
      plan.enter tree lineage dir = .done (e.survey plan.policy lineage.isEmpty)) ∨
    ∃ identity entries,
      plan.enter tree lineage dir = .examining (identity :: lineage) dir
        ((plan.selector.files entries).map fun name => .waiting (dir.join name))
        (subdirectories entries) ∧
      (∀ abort, plan.policy.gatherAll (plan.examineAll tree dir entries) = .error abort →
        ∀ levels, plan.explore tree (levels + 1) lineage dir
          = some (.expanded dir identity (plan.examineAll tree dir entries) [])) ∧
      (∀ own, plan.policy.gatherAll (plan.examineAll tree dir entries) = .ok own →
        ∀ levels, plan.explore tree (levels + 1) lineage dir
          = ((subdirectories entries).mapM fun name =>
              plan.explore tree levels (identity :: lineage) (dir.join name)).map
            (.expanded dir identity (plan.examineAll tree dir entries))) := by
  cases hid : tree.identity dir with
  | error f =>
    refine .inl ⟨.unlisted dir f, fun levels => ?_, ?_⟩
    · simp only [explore, hid]
    · simp only [enter, hid, Exploration.survey]
  | ok identity =>
    by_cases hknown : lineage.any identity.same = true
    · refine .inl ⟨.cycle dir identity, fun levels => ?_, ?_⟩
      · simp only [explore, hid, if_pos hknown]
      · simp only [enter, hid, if_pos hknown, Exploration.survey]
    cases hlist : tree.list dir with
    | error f =>
      refine .inl ⟨.unlisted dir f, fun levels => ?_, ?_⟩
      · simp only [explore, hid, if_neg hknown, hlist]
      · simp only [enter, hid, if_neg hknown, hlist, Exploration.survey]
    | ok entries =>
      refine .inr ⟨identity, entries, ?_, fun abort hown levels => ?_, fun own hown levels => ?_⟩
      · simp only [enter, hid, if_neg hknown, hlist]
      · simp only [explore, hid, if_neg hknown, hlist, hown]
      · simp only [explore, hid, if_neg hknown, hlist, hown]

/-- All files of a directory, examined by whichever workers. -/
theorem map_finish_waiting (plan : Plan) (tree : SourceTree) (dir : Path) (entries : List Entry) :
    ((plan.selector.files entries).map fun name => FileTask.waiting (dir.join name)).map
        (FileTask.finish tree)
      = plan.examineAll tree dir entries := by
  rw [List.map_map]
  rfl

theorem survey_expanded {identity : Path} {files : List ExaminedFile}
    (hown : plan.policy.gatherAll files = .ok own) (subdirs : List Exploration) (isRoot : Bool) :
    (Exploration.expanded dir identity files subdirs).survey plan.policy isRoot
      = FolderTask.conclude dir own (subdirs.map (Exploration.survey plan.policy false)) := by
  rw [Exploration.survey, hown, Exploration.surveys_eq_map]
  rfl

/-- A directory that is explored is a task that comes to its survey. -/
theorem exists_ends_of_explore {levels : Nat} :
    ∀ {lineage : List Path} {dir : Path} {e : Exploration},
      plan.explore tree levels lineage dir = some e →
      ∃ n, plan.Ends tree (.waiting lineage dir) (e.survey plan.policy lineage.isEmpty) n := by
  induction levels with
  | zero =>
    intro lineage dir e h
    cases h
  | succ levels ih =>
    intro lineage dir e h
    rcases plan.enter_cases tree lineage dir with
      ⟨e', hexplore, henter⟩ | ⟨identity, entries, henter, hfailed, hexplore⟩
    · obtain rfl := Option.some.inj ((hexplore levels).symm.trans h)
      exact ⟨2, .waiting (.busy (by rw [henter]; exact .done))⟩
    · suffices hdescend : ∃ n, plan.Ends tree (plan.descend (identity :: lineage) dir
          (subdirectories entries) (plan.examineAll tree dir entries))
          (e.survey plan.policy lineage.isEmpty) n by
        obtain ⟨n, hn⟩ := hdescend
        rw [← map_finish_waiting] at hn
        exact ⟨_, .waiting (.busy (by rw [henter]; exact .examining hn rfl))⟩
      cases hown : plan.policy.gatherAll (plan.examineAll tree dir entries) with
      | error abort =>
        rw [hfailed abort hown, Option.some.injEq] at h
        subst h
        refine ⟨0, ?_⟩
        simp only [descend, hown, Exploration.survey]
        exact .done
      | ok own =>
        rw [hexplore own hown, Option.map_eq_some_iff] at h
        simp only [mapM_eq_some_iff] at h
        obtain ⟨subdirs, hsubdirs, rfl⟩ := h
        obtain ⟨pairs, hfst, hsnd, hpairs⟩ := exists_pairs hsubdirs
        have hbelow := fun p hp => ih (hpairs p hp)
        choose! moves hmoves using hbelow
        simp only [descend, hown, survey_expanded hown]
        let subs : List Prospect := pairs.map fun p =>
          ⟨.waiting (identity :: lineage) (dir.join p.1), p.2.survey plan.policy false, moves p⟩
        refine ⟨_, @Ends.descending _ _ dir own _ subs _ _ (fun s hs => ?_) ?_ ?_ rfl⟩
        · obtain ⟨p, hp, rfl⟩ := List.mem_map.mp hs
          exact hmoves p hp
        · rw [← hfst, List.map_map, List.map_map]
          rfl
        · rw [← hsnd, List.map_map, List.map_map]
          rfl

theorem ends_waiting_iff :
    plan.Ends tree (.waiting lineage dir) r n ↔
      ∃ m, plan.Ends tree (plan.enter tree lineage dir) r m ∧ n = m + 2 := by
  constructor
  · intro h
    cases h with
    | waiting h =>
      cases h with
      | busy h => exact ⟨_, h, rfl⟩
  · rintro ⟨m, h, rfl⟩
    exact .waiting (.busy h)

/-- A task that comes to a result is a directory that is explored. -/
theorem exists_explore_of_ends :
    ∀ {n : Nat} {lineage : List Path} {dir : Path} {r : Except Abort Survey},
      plan.Ends tree (.waiting lineage dir) r n →
      ∃ levels e, plan.explore tree levels lineage dir = some e ∧
        e.survey plan.policy lineage.isEmpty = r := by
  intro n
  induction n using Nat.strongRecOn with
  | _ n ih =>
    intro lineage dir r hwaiting
    obtain ⟨m, h, rfl⟩ := ends_waiting_iff.mp hwaiting
    rcases plan.enter_cases tree lineage dir with
      ⟨e, hexplore, henter⟩ | ⟨identity, entries, henter, hfailed, hexplore⟩
    · rw [henter, ends_done_iff] at h
      exact ⟨1, e, hexplore 0, h.1.symm⟩
    rw [henter, ends_examining_iff, map_finish_waiting] at h
    obtain ⟨k, h, rfl⟩ := h
    cases hown : plan.policy.gatherAll (plan.examineAll tree dir entries) with
    | error abort =>
      simp only [descend, hown, ends_done_iff] at h
      refine ⟨1, _, hfailed abort hown 0, ?_⟩
      rw [h.1, Exploration.survey, hown]
      rfl
    | ok own =>
      simp only [descend, hown] at h
      cases h with
      | @descending _ _ _ subs _ _ hsubs htasks hr hn =>
        obtain ⟨pairs, hfst, hsnd, hpairs⟩ := exists_pairs htasks
        obtain ⟨levels, subdirs, hfound, hsurveys⟩ := exists_found
          (f := fun levels (p : Bytes × Prospect) =>
            plan.explore tree levels (identity :: lineage) (dir.join p.1))
          (g := Exploration.survey plan.policy false) (k := fun p => p.2.result)
          explore_of_le fun p hp => by
            have hmem : p.2 ∈ subs := hsnd ▸ List.mem_map_of_mem hp
            have hfewer : p.2.moves ≤ (subs.map Prospect.moves).sum := by
              obtain ⟨left, right, hsplit⟩ := List.append_of_mem hmem
              rw [hsplit, List.map_append, List.map_cons, List.sum_append, List.sum_cons]
              omega
            exact ih p.2.moves (by omega) (hpairs p hp ▸ hsubs p.2 hmem)
        refine ⟨levels + 1, .expanded dir identity (plan.examineAll tree dir entries) subdirs,
          ?_, ?_⟩
        · rw [hexplore own hown, Option.map_eq_some_iff]
          refine ⟨subdirs, mapM_eq_some_iff.mpr ?_, rfl⟩
          rw [← hfst, List.map_map]
          exact hfound
        · rw [survey_expanded hown, hr, ← hsnd, List.map_map, hsurveys]
          rfl

/-! ## Runs with several workers -/

/-- What a task has come to by some moves, it was going to come to. -/
theorem Interleaving.ends {moves : Nat} (h : plan.Interleaving tree jobs moves task last)
    (hlast : plan.Ends tree last r n) : plan.Ends tree task r (n + moves) := by
  induction h with
  | none => exact hlast
  | move hmove _ ih => exact (ends_iff_of_moves hmove.1).mpr (ih hlast)

/-- What a task is going to come to, it comes to by any moves, and as many are
left as were not made. -/
theorem Interleaving.exists_ends {moves : Nat}
    (h : plan.Interleaving tree jobs moves task last) (htask : plan.Ends tree task r n) :
    ∃ left, n = left + moves ∧ plan.Ends tree last r left := by
  induction h generalizing n with
  | none => exact ⟨n, rfl, htask⟩
  | move hmove _ ih =>
    obtain ⟨left, rfl, hnext⟩ := htask.exists_of_moves hmove.1
    obtain ⟨rest, rfl, hlast⟩ := ih hnext
    exact ⟨rest, rfl, hlast⟩

theorem Interleaving.workers_le {moves : Nat}
    (h : plan.Interleaving tree jobs moves task last) (htask : task.workers ≤ jobs) :
    last.workers ≤ jobs := by
  induction h with
  | none => exact htask
  | move hmove _ ih => exact ih hmove.2

/-- A pool is never stuck before a task is done. -/
theorem Ends.exists_poolMoves (hjobs : 1 ≤ jobs) (h : plan.Ends tree task r (n + 1))
    (hworkers : task.workers ≤ jobs) : ∃ next, plan.PoolMoves tree jobs task next := by
  rcases h.exists_moves with ⟨-, hn⟩ | ⟨next, hmove, hnext⟩
  · cases hn
  · exact ⟨next, hmove, by omega⟩

/-- A pool can bring a task to its end. -/
theorem Ends.interleaving (hjobs : 1 ≤ jobs) (h : plan.Ends tree task r n)
    (hworkers : task.workers ≤ jobs) : plan.Interleaving tree jobs n task (.done r) := by
  induction n generalizing task with
  | zero =>
    rcases h.exists_moves with ⟨rfl, -⟩ | ⟨next, hmove, -⟩
    · exact .none
    · exact absurd hmove h.not_moves
  | succ n ih =>
    obtain ⟨next, hmove⟩ := h.exists_poolMoves hjobs hworkers
    exact .move hmove (ih ((ends_iff_of_moves hmove.1).mp h) hmove.2)

/-- What a run over a directory returns is what its task comes to. -/
theorem returns_iff_exists_ends {root : Path} {outcome : Except Abort Survey}
    (hroot : tree.isDirectory root = true) :
    plan.Returns tree root outcome ↔ ∃ n, plan.Ends tree (.waiting [] root) outcome n := by
  simp only [Returns, run?, if_pos hroot, Option.map_eq_some_iff]
  constructor
  · rintro ⟨levels, e, he, rfl⟩
    exact exists_ends_of_explore he
  · rintro ⟨n, h⟩
    exact exists_explore_of_ends h

theorem poolReturns_iff_returns {root : Path} {outcome : Except Abort Survey} (hjobs : 1 ≤ jobs) :
    plan.PoolReturns tree jobs root outcome ↔ plan.Returns tree root outcome := by
  by_cases hroot : tree.isDirectory root = true
  · rw [PoolReturns, if_pos hroot, returns_iff_exists_ends hroot]
    constructor
    · rintro ⟨moves, h⟩
      exact ⟨_, h.ends .done⟩
    · rintro ⟨n, h⟩
      exact ⟨n, h.interleaving hjobs (Nat.zero_le _)⟩
  · simp only [PoolReturns, Returns, run?, if_neg hroot, exists_const, Option.some.injEq]
    exact eq_comm

/-- The run comes to the outcome with so many workers. A single one does one
thing after the other. -/
def ReturnsWith (plan : Plan) (tree : SourceTree) (jobs : Nat) (root : Path)
    (outcome : Except Abort Survey) : Prop :=
  if jobs ≤ 1 then plan.Returns tree root outcome else plan.PoolReturns tree jobs root outcome

/-- **The number of workers and the order of their moves do not matter.** With
any number of workers a run comes to what it comes to with one. If that is an
outcome, then all interleavings are as long, however they go on, and none gets
stuck before it has come to it. -/
theorem returnsWith_iff_returns (plan : Plan) (tree : SourceTree) (jobs : Nat) (root : Path)
    (outcome : Except Abort Survey) :
    (plan.ReturnsWith tree jobs root outcome ↔ plan.Returns tree root outcome) ∧
    (1 < jobs → tree.isDirectory root = true → plan.Returns tree root outcome →
      ∃ total, ∀ moves task, plan.Interleaving tree jobs moves (.waiting [] root) task →
        moves ≤ total ∧ (task = .done outcome ↔ moves = total) ∧
        (moves < total → ∃ next, plan.PoolMoves tree jobs task next)) := by
  constructor
  · rw [ReturnsWith]
    split
    · rfl
    · exact poolReturns_iff_returns (by omega)
  · intro hjobs hroot hreturns
    obtain ⟨total, htotal⟩ := (returns_iff_exists_ends hroot).mp hreturns
    refine ⟨total, fun moves task h => ?_⟩
    obtain ⟨left, rfl, htask⟩ := h.exists_ends htotal
    refine ⟨Nat.le_add_left _ _, ⟨?_, fun hleft => ?_⟩, fun hleft => ?_⟩
    · rintro rfl
      have hnone := (ends_done_iff.mp htask).2
      omega
    · obtain rfl : left = 0 := by omega
      rcases htask.exists_moves with ⟨hdone, -⟩ | ⟨next, hmove, -⟩
      · exact hdone
      · exact absurd hmove htask.not_moves
    · obtain ⟨left, rfl⟩ : ∃ fewer, left = fewer + 1 := ⟨left - 1, by omega⟩
      exact htask.exists_poolMoves (by omega) (h.workers_le (Nat.zero_le _))

section

open MemoryTree

/-- A directory with two files that are both missing. -/
def missing : MemoryTree where
  directories := [(.ofString "r", [⟨Utf8.ofString "a.j", .file⟩, ⟨Utf8.ofString "b.j", .file⟩])]
  files := []
  aliases := []
  planned := []

theorem enter_missing :
    severe.enter missing.answers [] (.ofString "r")
      = .examining [.ofString "r"] (.ofString "r")
          [.waiting (.ofString "r/a.j"), .waiting (.ofString "r/b.j")] [] := by
  have hnames : severe.selector.files
      [⟨Utf8.ofString "a.j", .file⟩, ⟨Utf8.ofString "b.j", .file⟩]
      = [Utf8.ofString "a.j", Utf8.ofString "b.j"] := sortNames_of_pairwise (by decide)
  have hdirs : subdirectories [⟨Utf8.ofString "a.j", .file⟩, ⟨Utf8.ofString "b.j", .file⟩] = [] :=
    sortNames_of_pairwise List.Pairwise.nil
  have henter : severe.enter missing.answers [] (.ofString "r")
      = .examining [.ofString "r"] (.ofString "r")
          ((severe.selector.files [⟨Utf8.ofString "a.j", .file⟩, ⟨Utf8.ofString "b.j", .file⟩]).map
            fun name => .waiting (Path.join (.ofString "r") name))
          (subdirectories [⟨Utf8.ofString "a.j", .file⟩, ⟨Utf8.ofString "b.j", .file⟩]) := rfl
  rw [henter, hnames, hdirs]
  rfl

/-- Of two workers the one with the second file is done first, and still the
run ends at the first file. -/
theorem returnsWith_iff_returns_missing :
    severe.Interleaving missing.answers 2 5 (.waiting [] (.ofString "r"))
        (.examining [.ofString "r"] (.ofString "r")
          [.busy (.ofString "r/a.j"),
            .done ⟨.ofString "r/b.j", .error (noFile (.ofString "r/b.j"))⟩] []) ∧
      severe.ReturnsWith missing.answers 2 (.ofString "r")
        (.error (.failure (noFile (.ofString "r/a.j")))) := by
  constructor
  · refine .move ⟨.start, by decide⟩ (.move ⟨.enter, ?_⟩ ?_)
    · exact (workers_enter ..).trans_le (Nat.zero_le _)
    rw [enter_missing]
    refine .move ⟨@Moves.startFile _ _ _ _ [] _ _ _, by decide⟩ ?_
    refine .move ⟨@Moves.startFile _ _ _ _ [_] [] _ _, by decide⟩ ?_
    exact .move ⟨@Moves.finishFile _ _ _ _ [_] [] _ _, by decide⟩ .none
  · rw [(returnsWith_iff_returns ..).1, returns_iff_exists_ends rfl]
    refine ⟨7, .waiting (.busy ?_)⟩
    rw [enter_missing]
    exact .examining .done rfl

end

end Plan

end KeywordSurvey
