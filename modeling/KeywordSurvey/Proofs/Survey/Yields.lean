import KeywordSurvey.Proofs.Exploration.Steps
import KeywordSurvey.Proofs.Folder.Nodes
import KeywordSurvey.SourceTree.Memory

/-!
# Surveys as derivations

`Plan.Yields` says with rules, and without a number of levels, which survey a
plan yields on a visit. A run that has a result follows these rules
(`yields_of_run?`), and so does every directory below its root
(`Yields.of_mem_nodes`), so what the rules say of a survey holds of the whole
tree and of each directory in it.
-/

namespace KeywordSurvey

namespace Plan

/-- The survey that a plan yields on a visit, one rule for each standing of
the directory. The start of a walk has no directories above it, and there is
no result if it cannot be listed. -/
inductive Yields (plan : Plan) (tree : SourceTree) : Visit → Survey → Prop
  | cycle {v : Visit} :
      tree.standing v = .cycle → Yields plan tree v ⟨Folder.leaf v.dir, []⟩
  | unlisted {v : Visit} {f : Failure} {skipped : Skip} :
      tree.standing v = .unlisted f → v.above ≠ [] →
      plan.policy.tolerate v.dir f = .ok skipped →
      Yields plan tree v ⟨Folder.leaf v.dir, [skipped]⟩
  | expanded {v : Visit} {entries : List Entry} {own : Report × List Skip}
      {below : List (Bytes × Survey)} {s : Survey} :
      tree.standing v = .expanded entries →
      plan.policy.gatherAll (plan.examineAll tree v.dir entries) = .ok own →
      below.map Prod.fst = subdirectories entries →
      (∀ b ∈ below, Yields plan tree (v.child b.1) b.2) →
      Exploration.combine v.dir own (below.map Prod.snd) = .ok s →
      Yields plan tree v s

/-! ## Runs and derivations -/

/-- An exploration that adds up to a survey derives it. -/
theorem yields_of_explore {plan : Plan} {tree : SourceTree} {levels : Nat} :
    ∀ {v : Visit} {e : Exploration} {s : Survey},
      plan.explore tree levels (tree.lineage v.above) v.dir = some e →
      e.survey plan.policy v.above.isEmpty = .ok s → Yields plan tree v s := by
  induction levels with
  | zero =>
    intro v e s h
    cases h
  | succ levels ih =>
    intro v e s h hs
    obtain ⟨identity, hstep⟩ := explore_succ plan tree v
    rw [hstep] at h
    cases hv : tree.standing v with
    | unlisted f =>
      rw [hv] at h
      cases h
      unfold Exploration.survey Exploration.unlistedSurvey at hs
      split at hs
      · cases hs
      · next hroot =>
        rw [map_eq_ok_iff] at hs
        obtain ⟨skipped, htol, rfl⟩ := hs
        exact .unlisted hv (by simpa using hroot) htol
    | cycle =>
      rw [hv] at h
      cases h
      unfold Exploration.survey at hs
      cases hs
      exact .cycle hv
    | expanded entries =>
      simp only [hv] at h
      cases hown : plan.policy.gatherAll (plan.examineAll tree v.dir entries) with
      | error abort =>
        simp only [hown, Option.some.injEq] at h
        subst h
        obtain ⟨own, -, hown', -⟩ := Exploration.survey_expanded_eq_ok_iff.mp hs
        rw [hown] at hown'
        cases hown'
      | ok own =>
        simp only [hown, Option.map_eq_some_iff, mapM_eq_some_iff] at h
        obtain ⟨subdirs, hsubdirs, rfl⟩ := h
        obtain ⟨_, results, hown', hresults, hcombine⟩ :=
          Exploration.survey_expanded_eq_ok_iff.mp hs
        obtain rfl := Except.ok.inj (hown.symm.trans hown')
        obtain ⟨below, hfst, hsnd, hbelow⟩ := exists_results hsubdirs hresults
        refine .expanded hv hown hfst (fun b hb => ?_) (hsnd ▸ hcombine)
        obtain ⟨e, he, hsurvey⟩ := hbelow b hb
        exact ih he hsurvey

/-- A derived survey is explored with some number of levels. -/
theorem exists_explore_of_yields {plan : Plan} {tree : SourceTree} {v : Visit} {s : Survey}
    (h : Yields plan tree v s) :
    ∃ levels e, plan.explore tree levels (tree.lineage v.above) v.dir = some e ∧
      e.survey plan.policy v.above.isEmpty = .ok s := by
  induction h with
  | @cycle v hv =>
    obtain ⟨identity, hstep⟩ := explore_succ plan tree v
    exact ⟨1, .cycle v.dir identity, by rw [hstep, hv], rfl⟩
  | @unlisted v f skipped hv hroot htol =>
    obtain ⟨identity, hstep⟩ := explore_succ plan tree v
    refine ⟨1, .unlisted v.dir f, by rw [hstep, hv], ?_⟩
    unfold Exploration.survey Exploration.unlistedSurvey
    rw [if_neg (by simpa using hroot), htol]
    rfl
  | @expanded v entries own below s hv hown hnames _ hs ih =>
    obtain ⟨levels, subdirs, hexplored, hsurveys⟩ := exists_found
      (f := fun levels (b : Bytes × Survey) => plan.explore tree levels
        (tree.lineage (v.child b.1).above) (v.child b.1).dir)
      (g := Exploration.survey plan.policy false) (k := fun b => .ok b.2)
      explore_of_le ih
    obtain ⟨identity, hstep⟩ := explore_succ plan tree v
    refine ⟨levels + 1, .expanded v.dir identity
      (plan.examineAll tree v.dir entries) subdirs, ?_, ?_⟩
    · simp only [hstep, hv, hown, Option.map_eq_some_iff, mapM_eq_some_iff]
      refine ⟨subdirs, ?_, rfl⟩
      rw [← hnames, List.map_map]
      exact hexplored
    · refine Exploration.survey_expanded_eq_ok_iff.mpr ⟨own, below.map Prod.snd, hown, ?_, hs⟩
      rw [hsurveys, List.map_map]
      rfl

/-- **A run has a result exactly if it is derived**, and its root is a
directory. -/
theorem exists_run?_iff {plan : Plan} {tree : SourceTree} {root : Path} {s : Survey} :
    (∃ levels, plan.run? tree levels root = some (.ok s)) ↔
      tree.isDirectory root = true ∧ plan.Yields tree (Visit.top root) s := by
  constructor
  · rintro ⟨levels, h⟩
    unfold run? at h
    split at h
    · next hroot =>
      obtain ⟨e, he, hs⟩ := Option.map_eq_some_iff.mp h
      exact ⟨hroot, yields_of_explore he hs⟩
    · cases h
  · rintro ⟨hroot, h⟩
    obtain ⟨levels, e, he, hs⟩ := exists_explore_of_yields h
    refine ⟨levels, ?_⟩
    rw [run?, if_pos hroot]
    exact Option.map_eq_some_iff.mpr ⟨e, he, hs⟩

theorem yields_of_run? {plan : Plan} {tree : SourceTree} {levels : Nat} {root : Path}
    {s : Survey} (h : plan.run? tree levels root = some (.ok s)) :
    plan.Yields tree (Visit.top root) s :=
  (exists_run?_iff.mp ⟨levels, h⟩).2

namespace Yields

variable {plan : Plan} {tree : SourceTree} {v : Visit} {s : Survey}

/-! ## What the rules say of one directory -/

theorem path (h : plan.Yields tree v s) : s.root.path = v.dir := by
  cases h with
  | cycle | unlisted => rfl
  | expanded _ _ _ _ hs => exact (Exploration.combine_eq_ok hs).1

/-- The folder of a directory that is expanded: itself, and then what its
subdirectories yield. -/
theorem nodes_expanded {own : Report × List Skip} {below : List (Bytes × Survey)}
    (h : Exploration.combine v.dir own (below.map Prod.snd) = .ok s) :
    s.root.nodes v.above
      = (v, s.root) :: below.flatMap fun b => b.2.root.nodes (v.child b.1).above := by
  obtain ⟨hpath, hchildren, -, -⟩ := Exploration.combine_eq_ok h
  rw [Folder.nodes_eq, hpath, hchildren, List.flatMap_map, List.flatMap_map]
  rfl

theorem visits_expanded {own : Report × List Skip} {below : List (Bytes × Survey)}
    (h : Exploration.combine v.dir own (below.map Prod.snd) = .ok s) :
    (s.root.nodes v.above).map Prod.fst
      = v :: below.flatMap fun b => (b.2.root.nodes (v.child b.1).above).map Prod.fst := by
  rw [nodes_expanded h, List.map_cons, List.map_flatMap]

/-- A directory that is not expanded is a leaf. -/
theorem root_eq_leaf (h : plan.Yields tree v s) (hv : (tree.standing v).isExpanded = false) :
    s.root = Folder.leaf v.dir := by
  cases h with
  | cycle | unlisted => rfl
  | expanded hv' => simp [hv'] at hv

/-! ## What they say of the directories below -/

/-- The directories of a folder are the visits of the walk, in its order. -/
theorem walk (h : plan.Yields tree v s) :
    tree.Walk v ((s.root.nodes v.above).map Prod.fst) := by
  induction h with
  | cycle hv => exact .closed (by simp [hv])
  | unlisted hv => exact .closed (by simp [hv])
  | @expanded v entries own below s hv hown hnames _ hs ih =>
    rw [visits_expanded hs]
    let visits (b : Bytes × Survey) := (b.2.root.nodes (v.child b.1).above).map Prod.fst
    have hwalk : tree.Walk v (v :: (below.map fun b => (b.1, visits b)).flatMap Prod.snd) := by
      refine .expanded hv ?_ fun p hp => ?_
      · rw [← hnames, List.map_map]
        rfl
      · obtain ⟨b, hb, rfl⟩ := List.mem_map.mp hp
        exact ih b hb
    rwa [List.flatMap_map] at hwalk

/-- **Every directory of a folder has a survey of its own**, whose folder is
the part of the folder there. -/
theorem of_mem_nodes (h : plan.Yields tree v s) :
    ∀ n ∈ s.root.nodes v.above, ∃ t, plan.Yields tree n.1 t ∧ t.root = n.2 ∧
      n.2.nodes n.1.above <:+: s.root.nodes v.above := by
  induction h with
  | @cycle v hv =>
    intro n hn
    obtain rfl := List.mem_singleton.mp hn
    exact ⟨_, .cycle hv, rfl, List.infix_rfl⟩
  | @unlisted v f skipped hv hroot htol =>
    intro n hn
    obtain rfl := List.mem_singleton.mp hn
    exact ⟨_, .unlisted hv hroot htol, rfl, List.infix_rfl⟩
  | @expanded v entries own below s hv hown hnames hbelow hs ih =>
    intro n hn
    rw [nodes_expanded hs, List.mem_cons, List.mem_flatMap] at hn
    rcases hn with rfl | ⟨b, hb, hn⟩
    · exact ⟨s, .expanded hv hown hnames hbelow hs, rfl, List.infix_rfl⟩
    · obtain ⟨t, ht, hroot, hin⟩ := ih b hb n hn
      refine ⟨t, ht, hroot, hin.trans ?_⟩
      rw [nodes_expanded hs]
      refine List.infix_cons (List.infix_of_mem_flatten ?_)
      exact List.mem_map.mpr ⟨b, hb, rfl⟩

end Yields

end Plan

/-! ## Small trees -/

/-- The directories `r` and `r/a`. The link `r/b` leads back to `r`, the
directory `r/a/k` cannot be listed, and the file `r/x.j` cannot be read, but
`r/y.j` and `r/a/w.j` can. -/
def MemoryTree.linked : MemoryTree where
  directories := [
    (.ofString "r", [⟨Utf8.ofString "a", .directory⟩, ⟨Utf8.ofString "b", .directory⟩,
      ⟨Utf8.ofString "x.j", .file⟩, ⟨Utf8.ofString "y.j", .file⟩]),
    (.ofString "r/a", [⟨Utf8.ofString "k", .directory⟩, ⟨Utf8.ofString "w.j", .file⟩])]
  files := [
    (.ofString "r/y.j", ⟨⟨7, by decide⟩, Utf8.ofString "if (y)"⟩),
    (.ofString "r/a/w.j", ⟨⟨9, by decide⟩, Utf8.ofString "// for"⟩)]
  aliases := [(.ofString "r/b", .ofString "r")]
  planned := []

/-- The directory `r` with one file in it, which can be read. -/
def MemoryTree.single : MemoryTree where
  directories := [(.ofString "r", [⟨Utf8.ofString "w.j", .file⟩])]
  files := [(.ofString "r/w.j", ⟨⟨5, by decide⟩, Utf8.ofString "// if"⟩)]
  aliases := []
  planned := []

namespace Plan

open MemoryTree

/-- A plan that leaves out what cannot be listed or read. -/
def lenient : Plan := ⟨⟨".j", by decide⟩, .skip⟩

/-- A plan for the same files that leaves nothing out. -/
def severe : Plan := ⟨lenient.selector, .strict⟩

/-- It visits four directories of the small tree, counts two files and leaves
out a file and a directory. -/
theorem exists_run?_linked : ∃ levels s,
    lenient.run? linked.answers levels (.ofString "r") = some (.ok s) ∧
      (s.root.nodes []).map (fun n => n.1.level) = [0, 1, 2, 1] ∧
      s.root.report.files.val = 2 ∧
      s.skipped.map Skip.path = [.ofString "r/x.j", .ofString "r/a/k"] := by
  let top := Visit.top (.ofString "r")
  let a := top.child (Utf8.ofString "a")
  have hk : lenient.Yields linked.answers (a.child (Utf8.ofString "k")) _ :=
    .unlisted (f := noDirectory (.ofString "r/a/k")) rfl (List.cons_ne_nil _ _) rfl
  have hb : lenient.Yields linked.answers (top.child (Utf8.ofString "b")) _ := .cycle rfl
  -- the entries are listed in the order of their names
  have hnames : subdirectories
      [⟨Utf8.ofString "k", .directory⟩, ⟨Utf8.ofString "w.j", .file⟩]
      = [Utf8.ofString "k"] := sortNames_of_pairwise (by decide)
  have hfiles : lenient.selector.files
      [⟨Utf8.ofString "k", .directory⟩, ⟨Utf8.ofString "w.j", .file⟩]
      = [Utf8.ofString "w.j"] := sortNames_of_pairwise (by decide)
  have ha : lenient.Yields linked.answers a _ :=
    @Yields.expanded _ _ a _ _ [(Utf8.ofString "k", _)] _ rfl
      (by rw [examineAll, hfiles]; rfl) hnames.symm
      (fun b hmem => by rw [List.mem_singleton.mp hmem]; exact hk) rfl
  have htopNames : subdirectories
      [⟨Utf8.ofString "a", .directory⟩, ⟨Utf8.ofString "b", .directory⟩,
        ⟨Utf8.ofString "x.j", .file⟩, ⟨Utf8.ofString "y.j", .file⟩]
      = [Utf8.ofString "a", Utf8.ofString "b"] := sortNames_of_pairwise (by decide)
  have htopFiles : lenient.selector.files
      [⟨Utf8.ofString "a", .directory⟩, ⟨Utf8.ofString "b", .directory⟩,
        ⟨Utf8.ofString "x.j", .file⟩, ⟨Utf8.ofString "y.j", .file⟩]
      = [Utf8.ofString "x.j", Utf8.ofString "y.j"] := sortNames_of_pairwise (by decide)
  have htop : lenient.Yields linked.answers top _ :=
    @Yields.expanded _ _ top _ _ [(Utf8.ofString "a", _), (Utf8.ofString "b", _)] _ rfl
      (by rw [examineAll, htopFiles]; rfl) htopNames.symm (fun b hmem => by
        rcases List.mem_pair.mp hmem with rfl | rfl
        · exact ha
        · exact hb) rfl
  obtain ⟨levels, hrun⟩ := exists_run?_iff.mpr ⟨rfl, htop⟩
  refine ⟨levels, _, hrun, ?_, ?_, ?_⟩
  · decide +kernel
  · rfl
  · rfl

end Plan

end KeywordSurvey
