import KeywordSurvey.Proofs.Survey.Termination

/-!
# Outcomes of runs

A run returns an outcome if it comes to it with levels enough
(`Plan.Returns`). It returns at most one (`Returns.unique`), and it returns one
wherever no way down is endless (`exists_returns`).
-/

namespace KeywordSurvey

/-- Where no way down is endless, the walk can be written down. -/
theorem SourceTree.exists_walk {tree : SourceTree} {v : Visit} (h : Acc tree.Calls v) :
    ∃ visits, tree.Walk v visits := by
  induction h with
  | intro v _ ih =>
    cases hv : tree.standing v with
    | unlisted f => exact ⟨[v], .closed (by simp [hv])⟩
    | cycle => exact ⟨[v], .closed (by simp [hv])⟩
    | expanded entries =>
      have hbelow : ∀ name ∈ subdirectories entries, ∃ visits, tree.Walk (v.child name) visits :=
        fun name hname => ih (v.child name) (.subdirectory hv hname)
      choose! visits hvisits using hbelow
      let below := (subdirectories entries).map fun name => (name, visits name)
      have hnames : below.map Prod.fst = subdirectories entries := by
        simp [below, Function.comp_def]
      refine ⟨v :: below.flatMap Prod.snd, .expanded hv hnames fun b hb => ?_⟩
      obtain ⟨name, hname, rfl⟩ := List.mem_map.mp hb
      exact hvisits name hname

namespace Plan

variable {plan : Plan} {tree : SourceTree} {root : Path}

/-- The run comes to the outcome, if it is given levels enough. -/
def Returns (plan : Plan) (tree : SourceTree) (root : Path)
    (outcome : Except Abort Survey) : Prop :=
  ∃ levels, plan.run? tree levels root = some outcome

theorem run?_of_le {levels more : Nat} {outcome : Except Abort Survey} (hle : levels ≤ more)
    (h : plan.run? tree levels root = some outcome) :
    plan.run? tree more root = some outcome := by
  unfold run? at h ⊢
  split at h
  · next hroot =>
    obtain ⟨e, he, hs⟩ := Option.map_eq_some_iff.mp h
    rw [if_pos hroot]
    exact Option.map_eq_some_iff.mpr ⟨e, explore_of_le hle he, hs⟩
  · next hroot => rwa [if_neg hroot]

/-- A run returns one outcome. -/
theorem Returns.unique {outcome other : Except Abort Survey}
    (h : plan.Returns tree root outcome) (h' : plan.Returns tree root other) :
    outcome = other := by
  obtain ⟨levels, h⟩ := h
  obtain ⟨more, h'⟩ := h'
  have hfirst := run?_of_le (Nat.le_max_left levels more) h
  have hsecond := run?_of_le (Nat.le_max_right levels more) h'
  exact Option.some.inj (hfirst.symm.trans hsecond)

theorem returns_ok_iff {s : Survey} :
    plan.Returns tree root (.ok s) ↔
      tree.isDirectory root = true ∧ plan.Yields tree (Visit.top root) s :=
  exists_run?_iff

/-- What a run over a bounded tree returns is its result. -/
theorem returns_iff_run {bounded : BoundedTree} {outcome : Except Abort Survey} :
    plan.Returns bounded.toSourceTree root outcome ↔ plan.run bounded root = outcome := by
  have hrun : plan.Returns bounded.toSourceTree root (plan.run bounded root) :=
    ⟨_, plan.run?_of_lt bounded root (Nat.lt_succ_self _)⟩
  constructor
  · exact hrun.unique
  · rintro rfl
    exact hrun

/-! ## Runs that end -/

theorem exists_explore_of_acc (plan : Plan) {v : Visit} (h : Acc tree.Calls v) :
    ∃ levels, (plan.explore tree levels (tree.lineage v.above) v.dir).isSome = true := by
  induction h with
  | intro v _ ih =>
    obtain ⟨identity, hstep⟩ := explore_succ plan tree v
    cases hv : tree.standing v with
    | unlisted f => exact ⟨1, by rw [hstep, hv]; rfl⟩
    | cycle => exact ⟨1, by rw [hstep, hv]; rfl⟩
    | expanded entries =>
      -- one number of levels has to do for all subdirectories
      obtain ⟨levels, hlevels⟩ := exists_bound (P := fun levels name => (plan.explore tree levels
          (tree.lineage (v.child name).above) (v.child name).dir).isSome = true)
        (fun hle hsome => by
          obtain ⟨e, he⟩ := Option.isSome_iff_exists.mp hsome
          rw [explore_of_le hle he]
          rfl)
        fun name hname => ih (v.child name) (.subdirectory hv hname)
      refine ⟨levels + 1, ?_⟩
      rw [hstep, hv]
      dsimp only
      cases plan.policy.gatherAll (plan.examineAll tree v.dir entries) with
      | error abort => rfl
      | ok own => exact Option.isSome_map.trans (mapM_isSome hlevels)

/-- **A run returns**, if no way down from the root is endless. -/
theorem exists_returns (plan : Plan) (h : Acc tree.Calls (Visit.top root)) :
    ∃ outcome, plan.Returns tree root outcome := by
  obtain ⟨levels, hsome⟩ := plan.exists_explore_of_acc h
  obtain ⟨e, he⟩ := Option.isSome_iff_exists.mp hsome
  by_cases hroot : tree.isDirectory root = true
  · refine ⟨e.survey plan.policy true, levels, ?_⟩
    rw [run?, if_pos hroot]
    exact congrArg (Option.map _) he
  · exact ⟨.error (noRoot root), levels, if_neg hroot⟩

end Plan

end KeywordSurvey
