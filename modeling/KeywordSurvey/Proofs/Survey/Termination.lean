import KeywordSurvey.Exploration.Bound
import KeywordSurvey.Proofs.Survey.Yields

/-!
# Walks come to an end

Paths grow without bound where links form a cycle, so no measure on paths
shows that a walk comes to an end. What shrinks from a directory to its
subdirectories is the list of identities that no directory above has
(`fresh_lt_of_calls`): a directory is expanded only if its own is one of them,
and they are passed on without it.
-/

namespace KeywordSurvey

namespace Visit

theorem chain_child (v : Visit) (name : Bytes) :
    (v.child name).chain = v.child name :: v.chain := rfl

theorem chain_eq (v : Visit) : v.chain = v :: v.chain.tail := by
  obtain ⟨above, dir⟩ := v
  cases above <;> rfl

theorem dir_mem_of_mem_chainOf {w : Visit} {above : List Path} :
    ∀ {dir : Path}, w ∈ chainOf dir above → w.dir ∈ dir :: above := by
  induction above with
  | nil =>
    intro dir h
    rw [List.mem_singleton.mp h]
    exact List.mem_cons_self
  | cons parent above ih =>
    intro dir h
    rcases List.mem_cons.mp h with rfl | h
    · exact List.mem_cons_self
    · exact List.mem_cons_of_mem dir (ih h)

end Visit

namespace SourceTree

/-! ## From visit to visit -/

/-- A walk goes on from a directory that is expanded to each of its
subdirectories. -/
inductive Calls (tree : SourceTree) : Visit → Visit → Prop
  | subdirectory {parent : Visit} {entries : List Entry} {name : Bytes} :
      tree.standing parent = .expanded entries → name ∈ subdirectories entries →
      Calls tree (parent.child name) parent

/-- The visits that a walk from `root` comes to. -/
inductive Reach (tree : SourceTree) (root : Path) : Visit → Prop
  | top : Reach tree root (Visit.top root)
  | step {parent child : Visit} :
      Reach tree root parent → tree.Calls child parent → Reach tree root child

theorem Walk.reach {tree : SourceTree} {root : Path} {v : Visit} {visits : List Visit}
    (h : tree.Walk v visits) (hv : tree.Reach root v) :
    ∀ w ∈ visits, tree.Reach root w := by
  induction h with
  | closed _ =>
    intro w hw
    rw [List.mem_singleton.mp hw]
    exact hv
  | @expanded v entries below hstanding hnames _ ih =>
    intro w hw
    rcases List.mem_cons.mp hw with rfl | hw
    · exact hv
    · obtain ⟨b, hb, hw⟩ := List.mem_flatMap.mp hw
      have hname : b.1 ∈ subdirectories entries := by
        rw [← hnames]
        exact List.mem_map_of_mem hb
      exact ih b hb (.step hv (.subdirectory hstanding hname)) w hw

/-- Only the last directory of a chain may be one that is not expanded. -/
theorem Reach.expanded_above {tree : SourceTree} {root : Path} {v : Visit}
    (h : tree.Reach root v) : ∀ w ∈ v.chain.tail, (tree.standing w).isExpanded = true := by
  induction h with
  | top => simp [Visit.top, Visit.chain, Visit.chainOf]
  | @step parent child _ hcall ih =>
    cases hcall with
    | subdirectory hstanding _ =>
      intro w hw
      rw [Visit.chain_child, List.tail_cons, parent.chain_eq] at hw
      rcases List.mem_cons.mp hw with rfl | hw
      · rw [hstanding, Standing.isExpanded_expanded]
      · exact ih w hw

/-! ## Chains -/

/-- Both directories have identities, and different ones. -/
def Distinct (tree : SourceTree) (v w : Visit) : Prop :=
  ∃ identity other, tree.identity v.dir = .ok identity ∧ tree.identity w.dir = .ok other ∧
    identity.same other = false

/-- A directory that is expanded has another identity than those above it. -/
theorem distinct_of_expanded {tree : SourceTree} {v w : Visit} (hdir : w.dir ∈ v.above)
    (hv : (tree.standing v).isExpanded = true) (hw : (tree.standing w).isExpanded = true) :
    tree.Distinct v w := by
  obtain ⟨entries, hv⟩ := Standing.isExpanded_iff.mp hv
  obtain ⟨others, hw⟩ := Standing.isExpanded_iff.mp hw
  obtain ⟨identity, hid, -, hnew⟩ := standing_eq_expanded_iff.mp hv
  obtain ⟨other, hother, -, -⟩ := standing_eq_expanded_iff.mp hw
  exact ⟨identity, other, hid, hother, hnew w.dir hdir other hother⟩

/-- The directories of a chain that are expanded have different identities. -/
theorem pairwise_distinct (tree : SourceTree) (v : Visit) :
    (v.chain.filter fun w => (tree.standing w).isExpanded).Pairwise tree.Distinct := by
  obtain ⟨above, dir⟩ := v
  show ((Visit.chainOf dir above).filter _).Pairwise _
  induction above generalizing dir with
  | nil => exact (List.pairwise_singleton _ _).sublist List.filter_sublist
  | cons parent above ih =>
    rw [Visit.chainOf, List.filter_cons]
    by_cases hdir : (tree.standing ⟨parent :: above, dir⟩).isExpanded = true
    · rw [if_pos hdir]
      refine List.pairwise_cons.mpr ⟨fun w hw => ?_, ih parent⟩
      obtain ⟨hw, hexpanded⟩ := List.mem_filter.mp hw
      exact distinct_of_expanded (Visit.dir_mem_of_mem_chainOf hw) hdir hexpanded
    · rw [if_neg hdir]
      exact ih parent

end SourceTree

namespace BoundedTree

/-! ## Fresh identities -/

/-- Fewer identities are fresh for a subdirectory. -/
theorem fresh_lt_of_calls (tree : BoundedTree) {parent child : Visit}
    (h : tree.toSourceTree.Calls child parent) :
    (tree.fresh (tree.toSourceTree.lineage child.above)).length
      < (tree.fresh (tree.toSourceTree.lineage parent.above)).length := by
  cases h with
  | subdirectory hstanding _ =>
    obtain ⟨identity, hid, hlist, hnew⟩ := SourceTree.standing_eq_expanded_iff.mp hstanding
    -- the identity of the parent is fresh there, and taken for the child
    obtain ⟨known, hmem, hsame⟩ := tree.covers hid hlist
    rw [Visit.above_child, SourceTree.lineage_cons hid]
    apply tree.fresh_cons_lt hmem hsame
    rw [List.any_eq_false]
    intro other hother
    obtain ⟨dir, hdir, hother⟩ := SourceTree.mem_lineage.mp hother
    simp [hnew dir hdir other hother]

theorem calls_wf (tree : BoundedTree) : WellFounded tree.toSourceTree.Calls :=
  Subrelation.wf tree.fresh_lt_of_calls (measure _).wf

/-- Each level takes one of the identities. -/
theorem level_add_fresh_le (tree : BoundedTree) {root : Path} {v : Visit}
    (h : tree.toSourceTree.Reach root v) :
    v.level + (tree.fresh (tree.toSourceTree.lineage v.above)).length
      ≤ tree.identities.length := by
  induction h with
  | top =>
    simp [Visit.top, Visit.level, fresh]
  | @step parent child _ hcall ih =>
    have hless := tree.fresh_lt_of_calls hcall
    have hlevel : child.level = parent.level + 1 := by
      cases hcall
      rfl
    omega

end BoundedTree

namespace Plan

/-- More levels than there are identities do not change the outcome. -/
theorem run?_of_lt (plan : Plan) (tree : BoundedTree) (root : Path) {levels : Nat}
    (h : tree.identities.length < levels) :
    plan.run? tree.toSourceTree levels root = some (plan.run tree root) := by
  unfold run? run
  split
  · have hleast : plan.explore tree.toSourceTree (tree.identities.length + 1) [] root
        = some (plan.exploration tree root) := (Option.some_get _).symm
    have hmore := explore_of_le h hleast
    exact congrArg (Option.map _) hmore
  · rfl

/-- **Walks come to an end.** If the directories that have both an identity and
entries have no identities but those of a list, then there is no endless way
down, a number of levels greater than the length of the list always gives the
one outcome, and in the survey no directory lies deeper than that length. On
the way to it all directories were expanded, and those that are expanded have
different identities. -/
theorem terminates_of_covers {tree : SourceTree} {identities : List Path}
    (covers : ∀ {dir identity : Path} {entries : List Entry},
      tree.identity dir = .ok identity → tree.list dir = .ok entries →
        ∃ known ∈ identities, known.same identity = true)
    (plan : Plan) (root : Path) :
    WellFounded tree.Calls ∧
    (∃ outcome, ∀ levels, identities.length < levels →
      plan.run? tree levels root = some outcome) ∧
    ∀ levels s, plan.run? tree levels root = some (.ok s) →
      (∀ n ∈ s.root.nodes [],
        n.1.level ≤ identities.length ∧
        (∀ w ∈ n.1.chain.tail, (tree.standing w).isExpanded = true) ∧
        (n.1.chain.filter fun w => (tree.standing w).isExpanded).Pairwise tree.Distinct) ∧
      ∀ entry ∈ s.root.listing 0, entry.1 ≤ identities.length := by
  let bounded : BoundedTree := ⟨tree, identities, covers⟩
  refine ⟨bounded.calls_wf, ⟨plan.run bounded root, fun levels h => ?_⟩, fun levels s h => ?_⟩
  · exact plan.run?_of_lt bounded root h
  · have hreach : ∀ n ∈ s.root.nodes [], tree.Reach root n.1 := fun n hn =>
      (yields_of_run? h).walk.reach .top n.1 (List.mem_map_of_mem hn)
    have hlevel : ∀ n ∈ s.root.nodes [], n.1.level ≤ identities.length := by
      intro n hn
      have hbound : n.1.level + _ ≤ identities.length :=
        bounded.level_add_fresh_le (hreach n hn)
      omega
    refine ⟨fun n hn => ⟨hlevel n hn, (hreach n hn).expanded_above, ?_⟩, fun entry he => ?_⟩
    · exact tree.pairwise_distinct n.1
    · have hlisting := Folder.listing_eq [] s.root
      rw [List.length_nil] at hlisting
      rw [hlisting] at he
      obtain ⟨n, hn, rfl⟩ := List.mem_map.mp he
      exact hlevel n hn

/-- The small tree has two identities, and the survey of it has two levels
below its root. -/
theorem terminates_of_covers_linked :
    MemoryTree.linked.bounded.identities.length = 2 ∧
      WellFounded MemoryTree.linked.answers.Calls ∧
      ∃ levels s, lenient.run? MemoryTree.linked.answers levels (.ofString "r") = some (.ok s) ∧
        (s.root.nodes []).map (fun n => n.1.level) = [0, 1, 2, 1] ∧
        ∀ n ∈ s.root.nodes [], n.1.level ≤ MemoryTree.linked.bounded.identities.length := by
  obtain ⟨levels, s, hrun, hlevels, -, -⟩ := exists_run?_linked
  obtain ⟨hwf, -, hsurvey⟩ :=
    terminates_of_covers MemoryTree.linked.bounded.covers lenient (.ofString "r")
  obtain ⟨hnodes, -⟩ := hsurvey levels s hrun
  exact ⟨rfl, hwf, levels, s, hrun, hlevels, fun n hn => (hnodes n hn).1⟩

end Plan

end KeywordSurvey
