import Mathlib.Data.List.Flatten
import KeywordSurvey.Proofs.SourceTree.Names
import KeywordSurvey.Proofs.Survey.Outcomes
import KeywordSurvey.Proofs.Survey.Skipped

/-!
# Nothing is visited twice

Where the entries of each listing have different names (`SourceTree.WellNamed`),
a walk asks about no path twice, be it the path of a directory or of a file
(`SourceTree.Walk.nodup_asked`): names lead from the root to each of them, and
different names lead to different paths. So the directories of a survey have
different paths, and so do the files that it examines and the paths that it
leaves out (`Plan.distinct_of_returns`).
-/

namespace KeywordSurvey

/-! ## What a walk asks about -/

section

variable (selector : Selector) (tree : SourceTree) (v : Visit)

/-- The files that are examined on the visit. -/
def examinedAt : List Path :=
  match tree.standing v with
  | .expanded entries => (selector.files entries).map v.dir.join
  | _ => []

/-- The paths of which something is asked on the visit: the directory and its
files. -/
def askedAt : List Path := v.dir :: examinedAt selector tree v

end

section

variable {selector : Selector} {tree : SourceTree} {v : Visit}

theorem examinedAt_of_expanded {entries : List Entry} (hv : tree.standing v = .expanded entries) :
    examinedAt selector tree v = (selector.files entries).map v.dir.join := by
  simp only [examinedAt, hv]

theorem examinedAt_of_closed (hv : (tree.standing v).isExpanded = false) :
    examinedAt selector tree v = [] := by
  unfold examinedAt
  split
  · next entries hexpanded => simp [hexpanded] at hv
  · rfl

/-- What is left out on a visit was asked about there. -/
theorem skips_sublist_asked (selector : Selector) (tree : SourceTree) (v : Visit) :
    ((skipsAt selector tree v).map Skip.path).Sublist (askedAt selector tree v) := by
  unfold skipsAt askedAt
  cases hv : tree.standing v with
  | unlisted f => exact (List.nil_sublist _).cons_cons v.dir
  | cycle => exact List.nil_sublist _
  | expanded entries =>
    refine List.Sublist.cons v.dir ?_
    simp only [examinedAt_of_expanded hv, faultyAt, hv, List.map_filterMap]
    induction selector.files entries with
    | nil => exact List.Sublist.slnil
    | cons name names ih =>
      rw [List.map_cons]
      cases hfault : tree.fault? (v.dir.join name) with
      | none =>
        rw [List.filterMap_cons_none (by simp [hfault])]
        exact ih.cons _
      | some f =>
        rw [List.filterMap_cons_some (b := v.dir.join name) (by simp [hfault, skipOf])]
        exact ih.cons_cons _

end

namespace SourceTree

variable {selector : Selector} {tree : SourceTree} {v : Visit} {visits : List Visit}

/-- Names lead from the start of a walk to each visit, one for each level. -/
theorem Walk.descent (h : tree.Walk v visits) (hnames : tree.WellNamed) :
    ∀ w ∈ visits, ∃ names, (∀ name ∈ names, IsName name) ∧
      w.level = v.level + names.length ∧ w.dir = v.dir.descend names := by
  induction h with
  | closed _ =>
    intro w hw
    rw [List.mem_singleton.mp hw]
    exact ⟨[], by simp, rfl, rfl⟩
  | @expanded v entries below hv hbelow _ ih =>
    intro w hw
    rcases List.mem_cons.mp hw with rfl | hw
    · exact ⟨[], by simp, rfl, rfl⟩
    · obtain ⟨b, hb, hw⟩ := List.mem_flatMap.mp hw
      have hmem : b.1 ∈ subdirectories entries := hbelow ▸ List.mem_map_of_mem hb
      have hname : IsName b.1 := hnames.isName_subdirectory (list_of_expanded hv) hmem
      obtain ⟨names, hall, hlevel, hdir⟩ := ih b hb w hw
      refine ⟨b.1 :: names, List.forall_mem_cons.mpr ⟨hname, hall⟩, ?_, hdir⟩
      rw [hlevel, Visit.level_child, List.length_cons]
      omega

/-- What a walk asks about lies under the directory where it starts. -/
theorem Walk.under (h : tree.Walk v visits) (hnames : tree.WellNamed) :
    ∀ path ∈ visits.flatMap (askedAt selector tree), path.Under v.dir := by
  intro path hpath
  obtain ⟨w, hw, hpath⟩ := List.mem_flatMap.mp hpath
  obtain ⟨names, hall, -, hdir⟩ := h.descent hnames w hw
  have hw : w.dir.Under v.dir := ⟨names, hall, hdir⟩
  rcases List.mem_cons.mp hpath with rfl | hpath
  · exact hw
  · unfold examinedAt at hpath
    split at hpath
    · next entries hstanding =>
      obtain ⟨name, hname, rfl⟩ := List.mem_map.mp hpath
      exact hw.join (hnames.isName_file (list_of_expanded hstanding) hname)
    · cases hpath

/-- A directory and parts that lie under different entries of it have no path
in common. -/
theorem nodup_cons_parts {dir : Path} {parts : List (Bytes × List Path)}
    (hnodup : (parts.map Prod.fst).Nodup) (hname : ∀ part ∈ parts, IsName part.1)
    (hunder : ∀ part ∈ parts, ∀ path ∈ part.2, path.Under (dir.join part.1))
    (hparts : ∀ part ∈ parts, part.2.Nodup) : (dir :: parts.flatMap Prod.snd).Nodup := by
  refine List.nodup_cons.mpr ⟨fun hself => ?_, List.nodup_flatMap.mpr ⟨hparts, ?_⟩⟩
  · obtain ⟨part, hmem, hself⟩ := List.mem_flatMap.mp hself
    exact Path.not_under_join (hname part hmem) (hunder part hmem dir hself)
  · refine (List.pairwise_map.mp hnodup).imp_of_mem fun {part other} hmem hmem' hne => ?_
    refine List.disjoint_left.mpr fun path hpath hpath' => hne ?_
    exact Path.Under.name_eq (hname part hmem) (hname other hmem') (hunder part hmem path hpath)
      (hunder other hmem' path hpath')

/-- **A walk asks about no path twice.** -/
theorem Walk.nodup_asked (h : tree.Walk v visits) (hnames : tree.WellNamed)
    (selector : Selector) : (visits.flatMap (askedAt selector tree)).Nodup := by
  induction h with
  | @closed v hv =>
    rw [List.flatMap_singleton, askedAt, examinedAt_of_closed hv]
    exact List.nodup_singleton v.dir
  | @expanded v entries below hv hbelow hwalks ih =>
    have hlist := list_of_expanded hv
    have hnodup := hnames.nodup hlist
    -- each file is a part, and so is all that is asked below a subdirectory
    let files := (selector.files entries).map fun name => (name, [v.dir.join name])
    let subdirs := below.map fun b => (b.1, b.2.flatMap (askedAt selector tree))
    have hfst : (files ++ subdirs).map Prod.fst
        = selector.files entries ++ subdirectories entries := by
      rw [List.map_append, List.map_map, List.map_map, ← hbelow]
      exact congrArg (· ++ _) (List.map_id _)
    have hsnd : (v :: below.flatMap Prod.snd).flatMap (askedAt selector tree)
        = v.dir :: (files ++ subdirs).flatMap Prod.snd := by
      rw [List.flatMap_cons, askedAt, examinedAt_of_expanded hv, List.flatMap_assoc,
        List.flatMap_append, List.flatMap_map, List.flatMap_map, ← List.map_eq_flatMap]
      rfl
    rw [hsnd]
    refine nodup_cons_parts ?_ ?_ ?_ ?_
    · rw [hfst, List.nodup_append']
      refine ⟨Selector.nodup_files hnodup, nodup_subdirectories hnodup, ?_⟩
      exact List.disjoint_right.mpr fun name hname => Selector.not_mem_files hnodup hname
    · intro part hpart
      have hmem : part.1 ∈ selector.files entries ++ subdirectories entries :=
        hfst ▸ List.mem_map_of_mem hpart
      rcases List.mem_append.mp hmem with hmem | hmem
      · exact hnames.isName_file hlist hmem
      · exact hnames.isName_subdirectory hlist hmem
    · rw [List.forall_mem_append, List.forall_mem_map, List.forall_mem_map]
      refine ⟨fun name _ path hpath => ?_, fun b hb => (hwalks b hb).under hnames⟩
      rw [List.mem_singleton.mp hpath]
      exact .refl _
    · rw [List.forall_mem_append, List.forall_mem_map, List.forall_mem_map]
      exact ⟨fun name _ => List.nodup_singleton _, ih⟩

end SourceTree

/-- A tree in memory is well-named if the entries of its directories are. -/
theorem MemoryTree.wellNamed_answers {t : MemoryTree}
    (hname : ∀ binding ∈ t.directories, ∀ e ∈ binding.2, IsName e.name)
    (hnodup : ∀ binding ∈ t.directories, (binding.2.map Entry.name).Nodup) :
    t.answers.WellNamed := by
  have hmem : ∀ {dir : Path} {entries : List Entry}, t.answers.list dir = .ok entries →
      (dir, entries) ∈ t.directories := by
    intro dir entries hlist
    have hlookup := eq_of_unlessPlanned hlist
    split at hlookup
    · next found hfound =>
      cases hlookup
      exact lookup_mem hfound
    · cases hlookup
  exact ⟨fun hlist => hname _ (hmem hlist), fun hlist => hnodup _ (hmem hlist)⟩

/-! ## What a run examines -/

namespace Exploration

mutual

/-- The paths of the files that were examined, those of a directory before
those below it. -/
def examined : Exploration → List Path
  | unlisted .. => []
  | cycle .. => []
  | expanded _ _ files subdirs => files.map ExaminedFile.path ++ examinedAll subdirs

/-- The files that were examined in several subdirectories. -/
def examinedAll : List Exploration → List Path
  | [] => []
  | subdir :: subdirs => examined subdir ++ examinedAll subdirs

end

theorem examinedAll_eq_flatMap (subdirs : List Exploration) :
    examinedAll subdirs = subdirs.flatMap examined := by
  induction subdirs with
  | nil => rfl
  | cons e subdirs ih => rw [examinedAll, ih, List.flatMap_cons]

end Exploration

namespace Plan

variable {plan : Plan} {tree : SourceTree}

/-- A run that has a result examines the files of every visit. -/
theorem Yields.examined_eq {v : Visit} {s : Survey} (h : plan.Yields tree v s) :
    ∀ {levels : Nat} {e : Exploration},
      plan.explore tree levels (tree.lineage v.above) v.dir = some e →
      e.examined
        = ((s.root.nodes v.above).map Prod.fst).flatMap (examinedAt plan.selector tree) := by
  induction h with
  | @cycle v hv | @unlisted v _ _ hv =>
    intro levels e he
    obtain ⟨identity, hstep⟩ := explore_succ plan tree v
    cases levels with
    | zero => cases he
    | succ levels =>
      rw [hstep, hv] at he
      cases he
      rw [Folder.nodes_leaf, List.map_singleton, List.flatMap_singleton,
        examinedAt_of_closed (by simp [hv])]
      rfl
  | @expanded v entries own below s hv hown hnames _ hs ih =>
    intro levels e he
    obtain ⟨identity, hstep⟩ := explore_succ plan tree v
    cases levels with
    | zero => cases he
    | succ levels =>
      simp only [hstep, hv, hown, Option.map_eq_some_iff, mapM_eq_some_iff] at he
      obtain ⟨subdirs, hsubdirs, rfl⟩ := he
      rw [← hnames, List.map_map] at hsubdirs
      obtain ⟨pairs, hfst, hsnd, hpairs⟩ := exists_pairs hsubdirs
      have hbelow : subdirs.flatMap Exploration.examined
          = below.flatMap fun b => ((b.2.root.nodes (v.child b.1).above).map Prod.fst).flatMap
              (examinedAt plan.selector tree) := by
        rw [← hfst, ← hsnd, List.flatMap_map, List.flatMap_map]
        refine List.flatMap_congr fun p hp => ih p.1 ?_ (hpairs p hp)
        exact hfst ▸ List.mem_map_of_mem hp
      rw [Exploration.examined, Exploration.examinedAll_eq_flatMap, hbelow, visits_expanded hs,
        List.flatMap_cons, List.flatMap_assoc, examinedAt_of_expanded hv, examineAll,
        List.map_map]
      rfl

theorem Yields.path_of_mem_nodes {v : Visit} {s : Survey} (h : plan.Yields tree v s) :
    ∀ n ∈ s.root.nodes v.above, n.2.path = n.1.dir := by
  intro n hn
  obtain ⟨t, ht, hroot, -⟩ := h.of_mem_nodes n hn
  rw [← hroot, ht.path]

/-- The children of a directory that is expanded lie under its subdirectories,
in the order of their names. -/
theorem Yields.children_expanded {v : Visit} {s : Survey} (h : plan.Yields tree v s)
    {entries : List Entry} (hv : tree.standing v = .expanded entries) :
    s.root.children.map Folder.path = (subdirectories entries).map v.dir.join := by
  cases h with
  | cycle hv' | unlisted hv' => simp [hv] at hv'
  | @expanded _ entries' own below _ hv' _ hnames hbelow hs =>
    obtain rfl := Standing.expanded.inj (hv.symm.trans hv')
    rw [(Exploration.combine_eq_ok hs).2.1, ← hnames, List.map_map, List.map_map, List.map_map]
    exact List.map_congr_left fun b hb => (hbelow b hb).path

variable {root : Path} {s : Survey}

/-- **Nothing is visited twice, and the order is canonical.** Let the listings
of a tree hold names, and none of them twice, and let a run return a survey.
Then the children of a directory that was expanded are its subdirectories, in
the strict order of their names; as many names lead from the root to each
directory as its level says; and all these directories have different paths,
byte by byte. No file is examined twice, nor under the path of a directory, and
no path is left out twice. -/
theorem distinct_of_returns (hnames : tree.WellNamed) (h : plan.Returns tree root (.ok s)) :
    (∀ n ∈ s.root.nodes [], ∀ entries, tree.standing n.1 = .expanded entries →
      ∃ names : List Bytes,
        names.Perm ((entries.filter fun e => e.kind == .directory).map Entry.name) ∧
        names.Pairwise (· < ·) ∧ n.2.children.map Folder.path = names.map n.2.path.join) ∧
    (∀ n ∈ s.root.nodes [], ∃ names, names.length = n.1.level ∧
      (∀ name ∈ names, IsName name) ∧ n.2.path = root.descend names) ∧
    ((s.root.nodes []).map fun n => n.2.path).Nodup ∧
    (∃ levels e, plan.explore tree levels [] root = some e ∧
      e.survey plan.policy true = .ok s ∧ e.examined.Nodup ∧
      ∀ path ∈ e.examined, ∀ n ∈ s.root.nodes [], n.2.path ≠ path) ∧
    (s.skipped.map Skip.path).Nodup := by
  have hyields := (returns_ok_iff.mp h).2
  have hpath := hyields.path_of_mem_nodes
  have hpaths : (s.root.nodes []).map (fun n => n.2.path)
      = ((s.root.nodes []).map Prod.fst).map Visit.dir := by
    rw [List.map_map]
    exact List.map_congr_left hpath
  have hasked := hyields.walk.nodup_asked hnames plan.selector
  -- what is asked about are the directories and the files
  have hparts := (List.map_append_flatMap_perm _ Visit.dir
    (examinedAt plan.selector tree)).nodup_iff.mpr hasked
  obtain ⟨hdirs, hfiles, hdisjoint⟩ := List.nodup_append'.mp hparts
  refine ⟨fun n hn entries hv => ?_, fun n hn => ?_, ?_, ?_, ?_⟩
  · obtain ⟨t, ht, hroot, -⟩ := hyields.of_mem_nodes n hn
    have hlist := SourceTree.list_of_expanded hv
    refine ⟨subdirectories entries, perm_subdirectories entries,
      pairwise_subdirectories (hnames.nodup hlist), ?_⟩
    rw [hpath n hn, ← hroot]
    exact ht.children_expanded hv
  · obtain ⟨names, hall, hlevel, hdir⟩ :=
      hyields.walk.descent hnames n.1 (List.mem_map_of_mem hn)
    refine ⟨names, ?_, hall, (hpath n hn).trans hdir⟩
    rw [hlevel]
    exact (Nat.zero_add names.length).symm
  · rw [hpaths]
    exact hdirs
  · obtain ⟨levels, e, he, hs⟩ := exists_explore_of_yields hyields
    have hexamined := hyields.examined_eq he
    refine ⟨levels, e, he, hs, by rw [hexamined]; exact hfiles, fun path hmem n hn heq => ?_⟩
    rw [hexamined] at hmem
    refine hdisjoint ?_ hmem
    rw [← heq, hpath n hn]
    exact List.mem_map_of_mem (List.mem_map_of_mem hn)
  · rw [hyields.skipped_eq, List.map_flatMap]
    exact hasked.sublist (List.Sublist.flatMap_right _ fun v _ => skips_sublist_asked _ _ v)

/-- The names in the small tree lead to four directories, and nothing that is
left out there has the path of another. -/
theorem distinct_of_returns_linked : MemoryTree.linked.answers.WellNamed ∧
    ∃ s, lenient.Returns MemoryTree.linked.answers (.ofString "r") (.ok s) ∧
      (s.root.nodes []).length = 4 ∧ ((s.root.nodes []).map fun n => n.2.path).Nodup ∧
      s.skipped.map Skip.path = [.ofString "r/x.j", .ofString "r/a/k"] ∧
      (s.skipped.map Skip.path).Nodup := by
  have hnames : MemoryTree.linked.answers.WellNamed :=
    MemoryTree.wellNamed_answers (by decide) (by decide)
  obtain ⟨levels, s, hrun, hlevels, -, hskipped⟩ := exists_run?_linked
  have hreturns : lenient.Returns MemoryTree.linked.answers (.ofString "r") (.ok s) :=
    ⟨levels, hrun⟩
  obtain ⟨-, -, hpaths, -, hnodup⟩ := distinct_of_returns hnames hreturns
  have hcount := congrArg List.length hlevels
  rw [List.length_map] at hcount
  exact ⟨hnames, s, hreturns, hcount, hpaths, hskipped, hnodup⟩

end Plan

end KeywordSurvey
