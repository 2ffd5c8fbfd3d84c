import KeywordSurvey.Proofs.Exploration.Files
import KeywordSurvey.Proofs.Survey.Yields

/-!
# Surveys add up

The report of a directory is the exact sum of what its own readable files and
its subdirectories contribute, and the report of the root is the exact sum
over all files that can be read anywhere below it (`totals_of_run?`). Nothing
is forgotten and nothing counts twice, whatever fails to be listed or read and
whatever links the tree holds.
-/

namespace KeywordSurvey

/-- The files that were read are those that can be read, in whatever order
they are examined. -/
theorem Plan.perm_examineAll (plan : Plan) {tree : SourceTree} {v : Visit}
    {entries : List Entry} (hv : tree.standing v = .expanded entries) :
    ((plan.examineAll tree v.dir entries).filterMap ExaminedFile.source?).Perm
      (readableAt plan.selector tree v) := by
  have hperm := (plan.selector.perm_files entries).filterMap fun name =>
    tree.readable? (v.dir.join name)
  rw [List.filterMap_map] at hperm
  simp only [readableAt, takenAt, hv, filterMap_source?_examineAll]
  exact hperm

namespace Plan.Yields

variable {plan : Plan} {tree : SourceTree} {v : Visit} {s : Survey}

/-- One level of the law: own files and children. -/
theorem report_expanded (h : plan.Yields tree v s) {entries : List Entry}
    (hv : tree.standing v = .expanded entries) :
    s.root.report.exact
      = Totals.sum ((readableAt plan.selector tree v).map Totals.ofFile)
        + Totals.sum (s.root.children.map fun c => c.report.exact) := by
  cases h with
  | cycle hv' | unlisted hv' => simp [hv] at hv'
  | expanded hv' hown hnames hbelow hs =>
    obtain ⟨-, hchildren, hreport, -⟩ := Exploration.combine_eq_ok hs
    have hsum := (plan.perm_examineAll hv').map Totals.ofFile
    rw [hreport, Policy.exact_of_gatherAll hown, Totals.sum_perm hsum, hchildren,
      List.map_map, List.map_map, List.map_map]
    rfl

/-- All levels of it: every file that can be read, once for every visit. -/
theorem report_flat (h : plan.Yields tree v s) :
    s.root.report.exact = Totals.sum
      ((((s.root.nodes v.above).map Prod.fst).flatMap (readableAt plan.selector tree)).map
        Totals.ofFile) := by
  induction h with
  | cycle hv | unlisted hv =>
    rw [Folder.nodes_leaf, List.map_singleton, List.flatMap_singleton, readableAt, takenAt, hv]
    rfl
  | @expanded v entries own below s hv hown hnames hbelow hs ih =>
    have h : plan.Yields tree v s := .expanded hv hown hnames hbelow hs
    have hchildren := (Exploration.combine_eq_ok hs).2.1
    -- the children's reports are the sums over what lies below them
    have hsums := List.map_congr_left ih
    rw [h.report_expanded hv, visits_expanded hs, List.flatMap_cons, List.map_append,
      Totals.sum_append, List.flatMap_assoc, Totals.sum_flatMap, ← hsums, hchildren,
      List.map_map, List.map_map]
    rfl

end Plan.Yields

namespace Plan

/-- **The aggregation law.** If a run has a result, then the report of every
directory that was expanded is the sum of its readable files and of the
reports of its children; a directory that was not expanded has no children
and counts nothing. So the report of the root is the sum over all readable
files of the walk, and counts each of them once. -/
theorem totals_of_run? {plan : Plan} {tree : SourceTree} {levels : Nat} {root : Path}
    {s : Survey} (h : plan.run? tree levels root = some (.ok s)) :
    (∀ n ∈ s.root.nodes [],
      (∀ entries, tree.standing n.1 = .expanded entries →
        n.2.report.exact
          = Totals.sum ((readableAt plan.selector tree n.1).map Totals.ofFile)
            + Totals.sum (n.2.children.map fun c => c.report.exact)) ∧
      ((tree.standing n.1).isExpanded = false →
        n.2.report.exact = 0 ∧ n.2.children = [])) ∧
    ∃ visits, tree.Walk (Visit.top root) visits ∧
      (s.root.nodes []).map Prod.fst = visits ∧
      s.root.report.exact
        = Totals.sum ((visits.flatMap (readableAt plan.selector tree)).map Totals.ofFile) ∧
      s.root.report.files.val = (visits.flatMap (readableAt plan.selector tree)).length := by
  have hyields := yields_of_run? h
  refine ⟨fun n hn => ?_, _, hyields.walk, rfl, hyields.report_flat, ?_⟩
  · obtain ⟨t, ht, hroot, -⟩ := hyields.of_mem_nodes n hn
    rw [← hroot]
    refine ⟨fun entries hv => ht.report_expanded hv, fun hclosed => ?_⟩
    rw [ht.root_eq_leaf hclosed]
    exact ⟨rfl, rfl⟩
  · have hfiles := congrArg Totals.files hyields.report_flat
    rw [Totals.files_sum_ofFile] at hfiles
    exact hfiles

/-- The two files of the small tree that can be read are counted. -/
theorem totals_of_run?_linked : ∃ levels s,
    lenient.run? MemoryTree.linked.answers levels (.ofString "r") = some (.ok s) ∧
      ∃ visits, MemoryTree.linked.answers.Walk (Visit.top (.ofString "r")) visits ∧
        s.root.report.exact = Totals.sum ((visits.flatMap
          (readableAt lenient.selector MemoryTree.linked.answers)).map Totals.ofFile) ∧
        (visits.flatMap (readableAt lenient.selector MemoryTree.linked.answers)).length = 2 := by
  obtain ⟨levels, s, hrun, -, hfiles, -⟩ := exists_run?_linked
  obtain ⟨-, visits, hwalk, -, hsum, hcount⟩ := totals_of_run? hrun
  exact ⟨levels, s, hrun, visits, hwalk, hsum, hcount.symm.trans hfiles⟩

end Plan

end KeywordSurvey
