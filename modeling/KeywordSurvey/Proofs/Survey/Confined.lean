import KeywordSurvey.Proofs.Survey.FirstFailure
import KeywordSurvey.Proofs.Survey.Interleaving

/-!
# Runs that go on

If all that fails in a tree concerns single paths, then a run that leaves such
paths out is ended only by its root: the one directory that has to be listed
(`Plan.returns_failure_iff_unlisted`).
-/

namespace KeywordSurvey

namespace SourceTree

/-- Whatever fails in the tree concerns a single path. -/
structure Confined (tree : SourceTree) : Prop where
  list : ∀ {dir : Path} {f : Failure}, tree.list dir = .error f → f.isPathFailure = true
  identity : ∀ {dir : Path} {f : Failure}, tree.identity dir = .error f → f.isPathFailure = true
  contents : ∀ {path : Path} {f : Failure}, tree.contents path = .error f → f.isPathFailure = true
  size : ∀ {path : Path} {f : Failure}, tree.size path = .error f → f.isPathFailure = true

variable {tree : SourceTree} {f : Failure}

theorem Confined.of_unlisted (h : tree.Confined) {v : Visit}
    (hv : tree.standing v = .unlisted f) : f.isPathFailure = true := by
  rcases standing_eq_unlisted_iff.mp hv with hid | ⟨-, -, -, hlist⟩
  · exact h.identity hid
  · exact h.list hlist

theorem Confined.of_fault (h : tree.Confined) {path : Path}
    (hf : tree.fault? path = some f) : f.isPathFailure = true := by
  rcases bind_eq_error_iff.mp (examine_eq_error_iff.mpr hf) with hsize | ⟨size, -, hrest⟩
  · exact h.size hsize
  · rcases bind_eq_error_iff.mp hrest with hcontents | ⟨text, -, hok⟩
    · exact h.contents hcontents
    · cases hok

end SourceTree

namespace Plan

variable {plan : Plan} {tree : SourceTree} {root : Path} {f : Failure}

/-- What ends the run at one visit is that the visit is the top and cannot be
listed. -/
theorem eq_top_of_mem_fatalAt (htree : tree.Confined) (hpolicy : plan.policy = .skip) {v : Visit}
    (hf : f ∈ plan.fatalAt tree v) : v.above = [] ∧ tree.standing v = .unlisted f := by
  unfold fatalAt at hf
  rw [hpolicy] at hf
  cases hv : tree.standing v with
  | cycle => simp [hv] at hf
  | unlisted g =>
    simp only [hv, Policy.tolerates_skip, htree.of_unlisted hv] at hf
    split at hf
    · next htop =>
      obtain rfl := List.mem_singleton.mp hf
      exact ⟨by simpa using htop, rfl⟩
    · cases hf
  | expanded entries =>
    -- the failures of files are all tolerated
    simp only [hv, List.mem_filter, List.mem_filterMap] at hf
    obtain ⟨⟨name, -, hfault⟩, hfatal⟩ := hf
    simp [htree.of_fault hfault] at hfatal

/-- A visit below the top has a directory above it, so what a run meets first
can only be its top. -/
theorem FirstFatal.eq_top (htree : tree.Confined) (hpolicy : plan.policy = .skip) {v : Visit}
    {r : Option Failure} (h : plan.FirstFatal tree v r) :
    ∀ f, r = some f → v.above = [] ∧ tree.standing v = .unlisted f := by
  induction h with
  | here hhead =>
    intro f hf
    cases hf
    exact eq_top_of_mem_fatalAt htree hpolicy (List.mem_of_head? hhead)
  | @deeper v g _ _ name _ _ _ _ _ ih =>
    obtain ⟨habove, -⟩ := ih g rfl
    rw [Visit.above_child] at habove
    cases habove
  | clear =>
    intro f hf
    cases hf

theorem returns_of_unlisted (hroot : tree.isDirectory root = true)
    (hv : tree.standing (Visit.top root) = .unlisted f) :
    plan.Returns tree root (.error (.failure f)) := by
  obtain ⟨identity, hstep⟩ := explore_succ plan tree (Visit.top root)
  have he := hstep 0
  rw [hv] at he
  refine ⟨1, ?_⟩
  rw [run?, if_pos hroot]
  exact congrArg (Option.map (Exploration.survey plan.policy true)) he

/-- **Only the root ends a run that leaves paths out**, if whatever fails in the
tree concerns single paths. -/
theorem returns_failure_iff_unlisted (htree : tree.Confined) (hpolicy : plan.policy = .skip) :
    plan.Returns tree root (.error (.failure f)) ↔
      tree.isDirectory root = false ∧ f = .of (.invalidPath root) ∨
      tree.isDirectory root = true ∧ tree.standing (Visit.top root) = .unlisted f := by
  cases hroot : tree.isDirectory root with
  | false =>
    have hnone : plan.Returns tree root (.error (noRoot root)) :=
      ⟨0, run?_of_not_directory hroot 0⟩
    constructor
    · intro h
      cases h.unique hnone
      exact .inl ⟨rfl, rfl⟩
    · rintro (⟨-, rfl⟩ | ⟨hdir, -⟩)
      · exact hnone
      · cases hdir
  | true =>
    constructor
    · intro h
      exact .inr ⟨rfl, ((firstFatal_of_returns hroot h).eq_top htree hpolicy f rfl).2⟩
    · rintro (⟨hdir, -⟩ | ⟨-, hv⟩)
      · cases hdir
      · exact returns_of_unlisted hroot hv

/-- What a run comes to does not hang on the number of workers. -/
theorem returnsWith_iff {jobs : Nat} {outcome : Except Abort Survey} :
    plan.ReturnsWith tree jobs root outcome ↔ plan.Returns tree root outcome := by
  rw [ReturnsWith]
  split
  · rfl
  · exact poolReturns_iff_returns (by omega)

end Plan

end KeywordSurvey
