import KeywordSurvey.Exploration.Basic
import KeywordSurvey.Proofs.Report.Fits
import KeywordSurvey.Proofs.Results
import KeywordSurvey.Proofs.SourceTree.Walk

/-!
# What the steps of a run yield

One characterisation for each function between the answers of a tree and a
survey: what it says when it has a result, and where it matters with which
failure it ends. Later modules use these and do not unfold the functions again.
-/

namespace KeywordSurvey

/-- All siblings have a result if each has one. -/
theorem allResults_eq_ok_iff {α : Type} {results : List (Except Abort α)} {l : List α} :
    allResults results = .ok l ↔ results = l.map .ok := by
  unfold allResults
  split
  · next hany =>
    rw [List.any_eq_true] at hany
    obtain ⟨r, hr, hover⟩ := hany
    refine ⟨fun h => (by cases h), fun h => ?_⟩
    rw [h, List.mem_map] at hr
    obtain ⟨a, -, rfl⟩ := hr
    cases hover
  · exact mapM_id_eq_ok_iff

/-- Of the failures of siblings the first one counts. -/
theorem allResults_eq_failure {α β : Type} {result : α → Except Abort β} {l : List α}
    {f : Failure} (h : allResults (l.map result) = .error (.failure f)) :
    ∃ before a after, l = before ++ a :: after ∧ (∀ b ∈ before, ∃ c, result b = .ok c) ∧
      result a = .error (.failure f) := by
  unfold allResults at h
  split at h
  · cases h
  clear * - h
  induction l with
  | nil => cases h
  | cons a l ih =>
    rw [List.map_cons, List.mapM_cons, bind_eq_error_iff] at h
    rcases h with h | ⟨c, hc, h⟩
    · exact ⟨[], a, l, rfl, by simp, h⟩
    · rw [bind_eq_error_iff] at h
      rcases h with h | ⟨_, -, h⟩
      · obtain ⟨before, b, after, rfl, hbefore, hb⟩ := ih h
        exact ⟨a :: before, b, after, rfl, List.forall_mem_cons.mpr ⟨⟨c, hc⟩, hbefore⟩, hb⟩
      · cases h

namespace Policy

/-! ## What a policy decides -/

theorem fitting_eq_ok_iff {α : Type} {x : Option α} {a : α} :
    fitting x = .ok a ↔ x = some a := by
  cases x <;> simp [fitting]

theorem tolerate_eq_ok_iff {policy : Policy} {path : Path} {f : Failure} {s : Skip} :
    policy.tolerate path f = .ok s ↔
      policy = .skip ∧ f.isPathFailure = true ∧ s = skipOf path f := by
  unfold tolerate skipOf
  split
  · next h => simp [h, eq_comm]
  · next h => simp_all

end Policy

/-- A folder is put together from two sums, if both fit. -/
theorem Folder.assemble?_eq_some_iff {path : Path} {own : Report} {children : List Folder}
    {folder : Folder} :
    assemble? path own children = some folder ↔
      ∃ below total, Report.sum? (children.map report) = some below ∧
        own.add? below = some total ∧ folder = mk path total children := by
  simp only [assemble?, Option.bind_eq_bind, Option.bind_eq_some_iff, Option.some.injEq,
    exists_and_left, @eq_comm _ folder]

namespace Exploration

/-! ## The surveys of subdirectories -/

theorem surveys_eq_map (policy : Policy) (subdirs : List Exploration) :
    surveys policy subdirs = subdirs.map (survey policy false) := by
  induction subdirs with
  | nil => rfl
  | cons e subdirs ih => rw [surveys, ih, List.map_cons]

/-- A directory that was listed has a survey if its files and all of its
subdirectories have one, and the sums fit. -/
theorem survey_expanded_eq_ok_iff {policy : Policy} {isRoot : Bool} {dir identity : Path}
    {files : List ExaminedFile} {subdirs : List Exploration} {s : Survey} :
    (expanded dir identity files subdirs).survey policy isRoot = .ok s ↔
      ∃ own below, policy.gatherAll files = .ok own ∧
        subdirs.map (survey policy false) = below.map .ok ∧ combine dir own below = .ok s := by
  rw [survey, bind_eq_ok_iff]
  refine exists_congr fun own => ?_
  rw [bind_eq_ok_iff, surveys_eq_map, exists_and_left]
  simp only [allResults_eq_ok_iff]

/-- The survey of a directory takes the folders from below for its folder, and
the paths that they leave out for its own. -/
theorem combine_eq_ok_iff {dir : Path} {own : Report × List Skip} {below : List Survey}
    {s : Survey} :
    combine dir own below = .ok s ↔
      Folder.assemble? dir own.1 (below.map Survey.root) = some s.root ∧
        s.skipped = own.2 ++ below.flatMap Survey.skipped := by
  obtain ⟨root, skipped⟩ := s
  simp only [combine, bind_eq_ok_iff, Policy.fitting_eq_ok_iff, Except.ok.injEq, Survey.mk.injEq]
  constructor
  · rintro ⟨folder, hfolder, rfl, rfl⟩
    exact ⟨hfolder, rfl⟩
  · rintro ⟨hfolder, rfl⟩
    exact ⟨root, hfolder, rfl, rfl⟩

/-- A sum that does not fit is no failure. -/
theorem combine_ne_failure {dir : Path} {own : Report × List Skip} {below : List Survey}
    (f : Failure) : combine dir own below ≠ .error (.failure f) := by
  intro h
  rw [combine, bind_eq_error_iff] at h
  rcases h with h | ⟨folder, -, h⟩
  · cases hfolder : Folder.assemble? dir own.1 (below.map Survey.root) <;>
      simp [hfolder, Policy.fitting] at h
  · cases h

/-- A directory that was listed fails by its files or else by the first of its
subdirectories that fails. -/
theorem survey_expanded_eq_failure {policy : Policy} {isRoot : Bool} {dir identity : Path}
    {files : List ExaminedFile} {subdirs : List Exploration} {f : Failure}
    (h : (expanded dir identity files subdirs).survey policy isRoot = .error (.failure f)) :
    policy.gatherAll files = .error (.failure f) ∨
      ∃ before e after, subdirs = before ++ e :: after ∧
        (∀ b ∈ before, ∃ s, b.survey policy false = .ok s) ∧
        e.survey policy false = .error (.failure f) := by
  rw [survey, bind_eq_error_iff] at h
  rcases h with h | ⟨own, -, h⟩
  · exact .inl h
  · rw [bind_eq_error_iff, surveys_eq_map] at h
    rcases h with h | ⟨below, -, h⟩
    · exact .inr (allResults_eq_failure h)
    · exact absurd h (combine_ne_failure f)

/-- The survey of a directory adds its own report to those of its
subdirectories, and keeps what was left out anywhere. -/
theorem combine_eq_ok {dir : Path} {own : Report × List Skip} {below : List Survey}
    {s : Survey} (h : combine dir own below = .ok s) :
    s.root.path = dir ∧ s.root.children = below.map Survey.root ∧
      s.root.report.exact
        = own.1.exact + Totals.sum (below.map fun b => b.root.report.exact) ∧
      s.skipped = own.2 ++ below.flatMap Survey.skipped := by
  obtain ⟨hfolder, hskipped⟩ := combine_eq_ok_iff.mp h
  obtain ⟨sum, total, hsum, htotal, hroot⟩ := Folder.assemble?_eq_some_iff.mp hfolder
  rw [hroot]
  refine ⟨rfl, rfl, ?_, hskipped⟩
  rw [Report.add?_eq_some_iff, Report.sum?_eq_some_iff.mp hsum, List.map_map, List.map_map] at htotal
  exact htotal

end Exploration

namespace Plan

/-! ## What a walk meets -/

/-- **One step of an exploration**: what is met on a visit is the standing of
the directory there, and below it what is met on the visits of its
subdirectories. -/
theorem explore_succ (plan : Plan) (tree : SourceTree) (v : Visit) :
    ∃ identity, ∀ levels,
      plan.explore tree (levels + 1) (tree.lineage v.above) v.dir =
        match tree.standing v with
        | .unlisted f => some (.unlisted v.dir f)
        | .cycle => some (.cycle v.dir identity)
        | .expanded entries =>
          let files := plan.examineAll tree v.dir entries
          match plan.policy.gatherAll files with
          | .error _ => some (.expanded v.dir identity files [])
          | .ok _ =>
            ((subdirectories entries).mapM fun name => plan.explore tree levels
              (tree.lineage (v.child name).above) (v.child name).dir).map
              (.expanded v.dir identity files) := by
  cases hid : tree.identity v.dir with
  | error f =>
    refine ⟨v.dir, fun levels => ?_⟩
    rw [SourceTree.standing_of_no_identity hid, explore, hid]
  | ok identity =>
    refine ⟨identity, fun levels => ?_⟩
    rw [explore, hid]
    by_cases hknown : (tree.lineage v.above).any identity.same = true
    · rw [SourceTree.standing_of_known hid hknown]
      exact if_pos hknown
    · rw [SourceTree.standing_of_new hid hknown]
      refine (if_neg hknown).trans ?_
      cases hlist : tree.list v.dir with
      | error f => rfl
      | ok entries =>
        cases hown : plan.policy.gatherAll (plan.examineAll tree v.dir entries) with
        | error abort => simp only [hown]
        | ok own =>
          simp only [hown, Visit.above_child, Visit.dir_child, SourceTree.lineage_cons hid]

/-- **An exploration that has a result has it with more levels too.** -/
theorem explore_of_le {plan : Plan} {tree : SourceTree} :
    ∀ {levels more : Nat} {lineage : List Path} {dir : Path} {e : Exploration}, levels ≤ more →
      plan.explore tree levels lineage dir = some e → plan.explore tree more lineage dir = some e
  | 0, _, _, _, _, _, h => by cases h
  | levels + 1, 0, _, _, _, hle, _ => absurd hle (Nat.not_succ_le_zero levels)
  | levels + 1, more + 1, lineage, dir, e, hle, h => by
    rw [explore] at h ⊢
    cases hid : tree.identity dir with
    | error f => simpa only [hid] using h
    | ok identity =>
      simp only [hid] at h ⊢
      split at h
      · next hknown => rwa [if_pos hknown]
      next hnew =>
      rw [if_neg hnew]
      cases hlist : tree.list dir with
      | error f => simpa only [hlist] using h
      | ok entries =>
        simp only [hlist] at h ⊢
        cases hown : plan.policy.gatherAll (plan.examineAll tree dir entries) with
        | error abort => simpa only [hown] using h
        | ok own =>
          simp only [hown, Option.map_eq_some_iff, mapM_eq_some_iff] at h ⊢
          obtain ⟨subdirs, hsubdirs, he⟩ := h
          refine ⟨subdirs, ?_, he⟩
          rw [← hsubdirs]
          refine List.map_congr_left fun name hname => ?_
          -- the subdirectory was explored with fewer levels, so it is with more
          have hmem := List.mem_map_of_mem (f := fun name =>
            plan.explore tree levels (identity :: lineage) (dir.join name)) hname
          rw [hsubdirs, List.mem_map] at hmem
          obtain ⟨sub, -, hsub⟩ := hmem
          rw [← hsub]
          exact explore_of_le (Nat.le_of_succ_le_succ hle) hsub.symm

end Plan

end KeywordSurvey
