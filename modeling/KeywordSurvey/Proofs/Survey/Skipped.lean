import KeywordSurvey.Proofs.Survey.Aggregation

/-!
# Nothing is lost

A survey leaves out what the visits of its walk say is left out, in their
order (`Plan.Yields.skipped_eq`). A file that the selector takes can be read
or not; it counts in the one case and is left out in the other, so the files
counted below a directory and those left out there are together the files
taken (`Plan.Yields.files_add_faulty`).
-/

namespace KeywordSurvey

/-- Of two lists one takes what the other does not. -/
theorem length_filterMap_add {α β γ : Type} {f : α → Option β} {g : α → Option γ}
    (h : ∀ a, (f a).isSome ↔ g a = none) (l : List α) :
    (l.filterMap f).length + (l.filterMap g).length = l.length := by
  induction l with
  | nil => rfl
  | cons a l ih =>
    have ha := h a
    rw [List.filterMap_cons, List.filterMap_cons]
    cases hf : f a <;> cases hg : g a <;> simp [hf, hg] at ha ⊢ <;> omega

/-! ## One visit -/

/-- A file that the selector takes can be read or is left out. -/
theorem length_readableAt_add (selector : Selector) (tree : SourceTree) (v : Visit) :
    (readableAt selector tree v).length + (faultyAt selector tree v).length
      = (takenAt selector tree v).length := by
  unfold readableAt faultyAt takenAt
  cases tree.standing v with
  | unlisted f => rfl
  | cycle => rfl
  | expanded entries =>
    have hperm := (selector.perm_files entries).filterMap fun name =>
      (tree.fault? (v.dir.join name)).map (skipOf (v.dir.join name))
    show ((entries.filter selector.takes).filterMap _).length + _ = _
    rw [hperm.length_eq, List.filterMap_map]
    apply length_filterMap_add
    intro e
    rw [tree.readable?_isSome_iff, Function.comp_apply, Option.map_eq_none_iff]

/-- The files of a directory that are left out. -/
theorem Plan.skips_examineAll {plan : Plan} {tree : SourceTree} {v : Visit}
    {entries : List Entry} (hv : tree.standing v = .expanded entries) :
    (plan.examineAll tree v.dir entries).filterMap ExaminedFile.skip?
      = faultyAt plan.selector tree v := by
  simp only [faultyAt, hv, Plan.examineAll, List.filterMap_map, Function.comp_def,
    ExaminedFile.skip?_eq_map_fault?, ExaminedFile.fault?_examine]

/-- A file that is taken counts or is left out, and not both. -/
theorem counted_or_skipped {selector : Selector} {tree : SourceTree} {v : Visit} {e : Entry}
    (he : e ∈ takenAt selector tree v) :
    (∃ source ∈ readableAt selector tree v,
      tree.readable? (v.dir.join e.name) = some source ∧
        tree.fault? (v.dir.join e.name) = none) ∨
    ∃ f, skipOf (v.dir.join e.name) f ∈ skipsAt selector tree v ∧
      tree.readable? (v.dir.join e.name) = none ∧
        tree.fault? (v.dir.join e.name) = some f := by
  have hiff := tree.readable?_isSome_iff (v.dir.join e.name)
  cases hfault : tree.fault? (v.dir.join e.name) with
  | none =>
    obtain ⟨source, hsource⟩ := Option.isSome_iff_exists.mp (hiff.mpr hfault)
    exact .inl ⟨source, List.mem_filterMap.mpr ⟨e, he, hsource⟩, hsource, rfl⟩
  | some f =>
    refine .inr ⟨f, ?_, by simpa [hfault] using hiff, rfl⟩
    unfold takenAt at he
    unfold skipsAt faultyAt
    cases hv : tree.standing v with
    | unlisted _ => simp [hv] at he
    | cycle => simp [hv] at he
    | expanded entries =>
      simp only [hv] at he ⊢
      refine List.mem_filterMap.mpr ⟨e.name, ?_, by rw [hfault]; rfl⟩
      rw [(selector.perm_files entries).mem_iff]
      exact List.mem_map_of_mem he

namespace Plan.Yields

variable {plan : Plan} {tree : SourceTree} {v : Visit} {s : Survey}

/-! ## All visits -/

/-- What is left out anywhere, directory by directory. -/
theorem skipped_eq (h : plan.Yields tree v s) :
    s.skipped = ((s.root.nodes v.above).map Prod.fst).flatMap (skipsAt plan.selector tree) := by
  induction h with
  | cycle hv => simp [skipsAt, hv]
  | unlisted hv _ htol => simp [skipsAt, hv, (Policy.tolerate_eq_ok_iff.mp htol).2.2]
  | @expanded v entries own below s hv hown hnames hbelow hs ih =>
    obtain ⟨-, -, -, hskipped⟩ := Exploration.combine_eq_ok hs
    have hown : own.2 = skipsAt plan.selector tree v := by
      rw [(Policy.gatherAll_eq_ok_iff.mp hown).2.2, skips_examineAll hv, skipsAt, hv]
    rw [hskipped, hown, visits_expanded hs, List.flatMap_cons, List.flatMap_assoc,
      List.flatMap_map]
    exact congrArg _ (List.flatMap_congr ih)

/-- The files counted and those left out are the files taken. -/
theorem files_add_faulty (h : plan.Yields tree v s) :
    s.root.report.files.val
        + (((s.root.nodes v.above).map Prod.fst).flatMap (faultyAt plan.selector tree)).length
      = (((s.root.nodes v.above).map Prod.fst).flatMap (takenAt plan.selector tree)).length := by
  have hfiles := congrArg Totals.files h.report_flat
  rw [Totals.files_sum_ofFile] at hfiles
  have hcount : s.root.report.files.val = _ := hfiles
  rw [hcount]
  -- the law of one visit, added up over all of them
  generalize (s.root.nodes v.above).map Prod.fst = visits
  induction visits with
  | nil => rfl
  | cons w visits ih =>
    have hone := length_readableAt_add plan.selector tree w
    rw [List.flatMap_cons, List.flatMap_cons, List.flatMap_cons, List.length_append,
      List.length_append, List.length_append]
    omega

/-- The start of a walk is listed. -/
theorem top_listed {root : Path} (h : plan.Yields tree (Visit.top root) s) (f : Failure) :
    tree.standing (Visit.top root) ≠ .unlisted f := by
  cases h with
  | cycle hv => simp [hv]
  | unlisted _ habove _ => exact absurd rfl habove
  | expanded hv => simp [hv]

end Plan.Yields

namespace Plan

/-- **No file is lost.** If a run has a result, then what it leaves out is
exactly what the visits of the walk say, depth first, each in its place. A
file that is taken counts or is left out, never both and never neither; so
below the root, and below every other directory of the survey, the files
counted and the files left out are together the files taken, and the report
there is the sum of those that count. -/
theorem skipped_of_run? {plan : Plan} {tree : SourceTree} {levels : Nat} {root : Path}
    {s : Survey} (h : plan.run? tree levels root = some (.ok s)) :
    ∃ visits, tree.Walk (Visit.top root) visits ∧
      (s.root.nodes []).map Prod.fst = visits ∧
      (∀ f, tree.standing (Visit.top root) ≠ .unlisted f) ∧
      s.skipped = visits.flatMap (skipsAt plan.selector tree) ∧
      (∀ v ∈ visits, ∀ e ∈ takenAt plan.selector tree v,
        (∃ source ∈ readableAt plan.selector tree v,
          tree.readable? (v.dir.join e.name) = some source ∧
            tree.fault? (v.dir.join e.name) = none) ∨
        ∃ f, skipOf (v.dir.join e.name) f ∈ s.skipped ∧
          tree.readable? (v.dir.join e.name) = none ∧
            tree.fault? (v.dir.join e.name) = some f) ∧
      s.root.report.files.val + (visits.flatMap (faultyAt plan.selector tree)).length
        = (visits.flatMap (takenAt plan.selector tree)).length ∧
      ∀ n ∈ s.root.nodes [], ∃ part, tree.Walk n.1 part ∧ part <:+: visits ∧
        n.2.report.exact
          = Totals.sum ((part.flatMap (readableAt plan.selector tree)).map Totals.ofFile) ∧
        n.2.report.files.val + (part.flatMap (faultyAt plan.selector tree)).length
          = (part.flatMap (takenAt plan.selector tree)).length := by
  have hyields := yields_of_run? h
  have hskipped := hyields.skipped_eq
  refine ⟨_, hyields.walk, rfl, hyields.top_listed, hskipped, fun v hv e he => ?_,
    hyields.files_add_faulty, fun n hn => ?_⟩
  · rcases counted_or_skipped he with hcounted | ⟨f, hf, hfault⟩
    · exact .inl hcounted
    · refine .inr ⟨f, ?_, hfault⟩
      rw [hskipped]
      exact List.mem_flatMap.mpr ⟨v, hv, hf⟩
  · obtain ⟨t, ht, hroot, hin⟩ := hyields.of_mem_nodes n hn
    have hwalk := ht.walk
    have hreport := ht.report_flat
    have hfiles := ht.files_add_faulty
    rw [hroot] at hwalk hreport hfiles
    exact ⟨_, hwalk, hin.map Prod.fst, hreport, hfiles⟩

/-- Of the three files of the small tree two count, and the third is left out,
before the directory that cannot be listed. -/
theorem skipped_of_run?_linked : ∃ levels s,
    lenient.run? MemoryTree.linked.answers levels (.ofString "r") = some (.ok s) ∧
      s.skipped.map Skip.path = [.ofString "r/x.j", .ofString "r/a/k"] ∧
      ∃ visits, MemoryTree.linked.answers.Walk (Visit.top (.ofString "r")) visits ∧
        s.skipped = visits.flatMap (skipsAt lenient.selector MemoryTree.linked.answers) ∧
        2 + (visits.flatMap (faultyAt lenient.selector MemoryTree.linked.answers)).length
          = (visits.flatMap (takenAt lenient.selector MemoryTree.linked.answers)).length := by
  obtain ⟨levels, s, hrun, -, hfiles, hpaths⟩ := exists_run?_linked
  obtain ⟨visits, hwalk, -, -, hskipped, -, hcount, -⟩ := skipped_of_run? hrun
  rw [hfiles] at hcount
  exact ⟨levels, s, hrun, hpaths, visits, hwalk, hskipped, hcount⟩

end Plan

end KeywordSurvey
