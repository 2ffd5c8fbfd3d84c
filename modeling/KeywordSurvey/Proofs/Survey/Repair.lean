import KeywordSurvey.Proofs.Exploration.Files
import KeywordSurvey.Proofs.Survey.Outcomes

/-!
# Leaving out and taking away

To leave out what fails comes to the same as to take it away beforehand.
`SourceTree.repaired` is a tree without the files that cannot be read, and in
which the directories that cannot be listed are empty. What a plan yields that
puts up with failures, a plan that does not yields on the repaired tree
(`returns_strict_repaired`).
-/

namespace KeywordSurvey

theorem subdirectories_filter {entries : List Entry} {p : Entry → Bool}
    (h : ∀ e, e.kind = .directory → p e = true) :
    subdirectories (entries.filter p) = subdirectories entries := by
  unfold subdirectories
  rw [List.filter_filter]
  congr 2
  refine List.filter_congr fun e _ => ?_
  by_cases hkind : e.kind = .directory
  · simp [hkind, h e hkind]
  · simp [hkind]

theorem Selector.takes_of_directory {selector : Selector} {e : Entry}
    (h : e.kind = .directory) : selector.takes e = false := by
  rw [takes, h]

/-- What the selector takes can be narrowed down before or after sorting. -/
theorem Selector.files_filter {selector : Selector} {entries : List Entry} {p : Entry → Bool}
    {q : Bytes → Bool} (h : ∀ e, selector.takes e = true → p e = q e.name) :
    selector.files (entries.filter p) = (selector.files entries).filter q := by
  unfold files
  rw [← sortNames_filter, List.filter_map, List.filter_filter, List.filter_filter]
  congr 2
  refine List.filter_congr fun e _ => ?_
  by_cases htakes : selector.takes e = true
  · simp [htakes, h e htakes]
  · simp [htakes]

namespace SourceTree

/-! ## The repaired tree -/

/-- Does the directory have an identity and entries? -/
def isListed (tree : SourceTree) (dir : Path) : Bool :=
  (tree.identity dir).isOk && (tree.list dir).isOk

/-- Is the entry no file that is taken and cannot be read? -/
def keeps (tree : SourceTree) (selector : Selector) (dir : Path) (e : Entry) : Bool :=
  !selector.takes e || (tree.examine (dir.join e.name)).isOk

/-- The tree without what fails below `root`. Listings lose the files that
cannot be read; a directory that cannot be listed becomes an empty one, and if
it has no identity it gets the substitute. -/
def repaired (tree : SourceTree) (selector : Selector) (root : Path)
    (substitute : Path → Path) : SourceTree where
  list dir :=
    if dir ≠ root ∧ tree.isListed dir = false then .ok []
    else (tree.list dir).map fun entries => entries.filter (tree.keeps selector dir)
  isDirectory := tree.isDirectory
  identity dir :=
    match tree.identity dir with
    | .ok identity => .ok identity
    | .error f => if dir = root then .error f else .ok (substitute dir)
  contents := tree.contents
  size := tree.size

section

variable {tree : SourceTree} {selector : Selector} {root : Path} {substitute : Path → Path}
variable {dir identity : Path} {entries : List Entry} {v : Visit}

theorem identity_repaired (h : tree.identity dir = .ok identity) :
    (tree.repaired selector root substitute).identity dir = .ok identity := by
  simp only [repaired, h]

theorem list_repaired (hid : tree.identity dir = .ok identity)
    (hlist : tree.list dir = .ok entries) :
    (tree.repaired selector root substitute).list dir
      = .ok (entries.filter (tree.keeps selector dir)) := by
  have hlisted : tree.isListed dir = true := by rw [isListed, hid, hlist]; rfl
  simp only [repaired, hlisted, hlist]
  exact if_neg (by simp)

theorem list_repaired_of_not_listed (hdir : dir ≠ root) (h : tree.isListed dir = false) :
    (tree.repaired selector root substitute).list dir = .ok [] :=
  if_pos ⟨hdir, h⟩

theorem exists_identity_repaired (tree : SourceTree) (selector : Selector)
    (substitute : Path → Path) (hdir : dir ≠ root) :
    ∃ identity, (tree.repaired selector root substitute).identity dir = .ok identity := by
  cases hid : tree.identity dir with
  | ok identity => exact ⟨identity, identity_repaired hid⟩
  | error f => exact ⟨substitute dir, by simp only [repaired, hid, if_neg hdir]⟩

theorem not_isListed_of_unlisted {f : Failure} (hv : tree.standing v = .unlisted f) :
    tree.isListed v.dir = false := by
  unfold isListed
  cases hid : tree.identity v.dir with
  | error g => rfl
  | ok identity =>
    by_cases hknown : (tree.lineage v.above).any identity.same = true
    · simp [standing_of_known hid hknown] at hv
    · rw [standing_of_new hid hknown] at hv
      cases hlist : tree.list v.dir with
      | error g => rfl
      | ok entries => simp [hlist] at hv

theorem isListed_of_expanded (hv : tree.standing v = .expanded entries) :
    tree.isListed v.dir = true := by
  obtain ⟨identity, hid, hlist, -⟩ := standing_eq_expanded_iff.mp hv
  rw [isListed, hid, hlist]
  rfl

/-! ## Standings in it -/

theorem lineage_repaired {above : List Path}
    (habove : ∀ dir ∈ above, ∃ identity, tree.identity dir = .ok identity) :
    (tree.repaired selector root substitute).lineage above = tree.lineage above := by
  refine List.filterMap_congr fun dir hdir => ?_
  obtain ⟨identity, hid⟩ := habove dir hdir
  rw [hid, identity_repaired hid]

variable (habove : ∀ dir ∈ v.above, ∃ identity, tree.identity dir = .ok identity)

include habove

theorem standing_repaired_of_cycle (hv : tree.standing v = .cycle) :
    (tree.repaired selector root substitute).standing v = .cycle := by
  obtain ⟨identity, hid, hknown⟩ := standing_eq_cycle_iff.mp hv
  refine standing_eq_cycle_iff.mpr ⟨identity, identity_repaired hid, ?_⟩
  rwa [lineage_repaired habove]

theorem standing_repaired_of_expanded (hv : tree.standing v = .expanded entries) :
    (tree.repaired selector root substitute).standing v
      = .expanded (entries.filter (tree.keeps selector v.dir)) := by
  obtain ⟨identity, hid, hlist, hnew⟩ := standing_eq_expanded_iff.mp hv
  refine standing_eq_expanded_iff.mpr
    ⟨identity, identity_repaired hid, list_repaired hid hlist, fun dir hdir other hother => ?_⟩
  obtain ⟨original, horiginal⟩ := habove dir hdir
  rw [identity_repaired horiginal] at hother
  cases hother
  exact hnew dir hdir other horiginal

omit habove in
/-- A directory that cannot be listed is an empty one, unless its substitute
makes it one of those above it. -/
theorem standing_repaired_of_unlisted {f : Failure} (hdir : v.dir ≠ root)
    (hv : tree.standing v = .unlisted f) :
    (tree.repaired selector root substitute).standing v = .cycle ∨
      (tree.repaired selector root substitute).standing v = .expanded [] := by
  obtain ⟨identity, hid⟩ := exists_identity_repaired tree selector substitute hdir
  by_cases hknown :
      ((tree.repaired selector root substitute).lineage v.above).any identity.same = true
  · exact .inl (standing_of_known hid hknown)
  · rw [standing_of_new hid hknown,
      list_repaired_of_not_listed hdir (not_isListed_of_unlisted hv)]
    exact .inr rfl

end

end SourceTree

namespace Plan

variable {selector : Selector} {tree : SourceTree} {root : Path} {substitute : Path → Path}
variable {v : Visit} {s : Survey}

/-! ## Surveys of it -/

/-- The files that are left are those that were read. -/
theorem examineAll_repaired (policy other : Policy) (dir : Path) (entries : List Entry) :
    examineAll ⟨selector, policy⟩ (tree.repaired selector root substitute) dir
        (entries.filter (tree.keeps selector dir))
      = (examineAll ⟨selector, other⟩ tree dir entries).filter ExaminedFile.isRead := by
  have hkept : ∀ e, selector.takes e = true →
      tree.keeps selector dir e = (tree.examine (dir.join e.name)).isOk := by
    intro e he
    simp [SourceTree.keeps, he]
  unfold examineAll
  rw [Selector.files_filter (q := fun name => (tree.examine (dir.join name)).isOk) hkept,
    List.filter_map]
  congr 1
  refine List.filter_congr fun name _ => ?_
  exact (ExaminedFile.isRead_eq_isOk ⟨dir.join name, tree.examine (dir.join name)⟩).symm

/-- An empty directory yields what is left of one that cannot be listed. -/
theorem Yields.empty {plan : Plan} (hv : tree.standing v = .expanded []) :
    plan.Yields tree v ⟨Folder.leaf v.dir, []⟩ := by
  have hnames : subdirectories [] = [] := sortNames_of_pairwise .nil
  have hfiles : plan.selector.files [] = [] := sortNames_of_pairwise .nil
  have hown : plan.policy.gatherAll (plan.examineAll tree v.dir []) = .ok (Report.empty, []) := by
    rw [examineAll, hfiles]
    rfl
  exact @Yields.expanded _ _ v [] _ [] _ hv hown hnames.symm (by simp) rfl

/-- **What is left out can be taken away.** -/
theorem Yields.repaired (hroot : tree.isListed root = true)
    (h : Yields ⟨selector, .skip⟩ tree v s)
    (habove : ∀ dir ∈ v.above, ∃ identity, tree.identity dir = .ok identity) :
    Yields ⟨selector, .strict⟩ (tree.repaired selector root substitute) v ⟨s.root, []⟩ := by
  induction h with
  | cycle hv => exact .cycle (SourceTree.standing_repaired_of_cycle habove hv)
  | @unlisted v f skipped hv _ _ =>
    have hdir : v.dir ≠ root := by
      intro hdir
      have hlisted := SourceTree.not_isListed_of_unlisted hv
      rw [hdir, hroot] at hlisted
      cases hlisted
    rcases SourceTree.standing_repaired_of_unlisted hdir hv with hv' | hv'
    · exact .cycle hv'
    · exact .empty hv'
  | @expanded v entries own below s hv hown hnames _ hs ih =>
    let emptied := below.map fun b => (b.1, (⟨b.2.root, []⟩ : Survey))
    -- the files that were left out are gone, the others are read as before
    have hown' : Policy.gatherAll .strict (examineAll ⟨selector, .strict⟩
        (tree.repaired selector root substitute) v.dir
          (entries.filter (tree.keeps selector v.dir))) = .ok (own.1, []) := by
      rw [examineAll_repaired .strict .skip]
      exact Policy.gatherAll_strict_filter hown
    have hnames' : emptied.map Prod.fst
        = subdirectories (entries.filter (tree.keeps selector v.dir)) := by
      rw [subdirectories_filter, ← hnames, List.map_map]
      · rfl
      · intro e he
        simp [SourceTree.keeps, Selector.takes_of_directory he]
    have hbelow : ∀ c ∈ emptied, Yields ⟨selector, .strict⟩
        (tree.repaired selector root substitute) (v.child c.1) c.2 := by
      intro c hc
      obtain ⟨b, hb, rfl⟩ := List.mem_map.mp hc
      refine ih b hb fun dir hdir => ?_
      rcases List.mem_cons.mp hdir with rfl | hdir
      · obtain ⟨identity, hid, -, -⟩ := SourceTree.standing_eq_expanded_iff.mp hv
        exact ⟨identity, hid⟩
      · exact habove dir hdir
    have hs' : Exploration.combine v.dir (own.1, []) (emptied.map Prod.snd)
        = .ok ⟨s.root, []⟩ := by
      refine Exploration.combine_eq_ok_iff.mpr ⟨?_, ?_⟩
      · rw [← (Exploration.combine_eq_ok_iff.mp hs).1, List.map_map, List.map_map, List.map_map]
        rfl
      · simp [emptied, List.flatMap_map]
    exact .expanded (SourceTree.standing_repaired_of_expanded habove hv) hown' hnames' hbelow hs'

theorem Yields.isListed_top {plan : Plan} (h : plan.Yields tree (Visit.top root) s) :
    tree.isListed root = true := by
  cases h with
  | cycle hv =>
    obtain ⟨_, -, hknown⟩ := SourceTree.standing_eq_cycle_iff.mp hv
    cases hknown
  | unlisted _ habove _ => exact absurd rfl habove
  | expanded hv => exact SourceTree.isListed_of_expanded hv

/-- **To leave out what fails is to survey the tree without it.** If a run that
puts up with failures returns a survey, then one that does not returns the
same folder over the repaired tree, whatever identities are substituted there,
and leaves nothing out. -/
theorem returns_strict_repaired (h : Returns ⟨selector, .skip⟩ tree root (.ok s))
    (substitute : Path → Path) :
    Returns ⟨selector, .strict⟩ (tree.repaired selector root substitute) root
      (.ok ⟨s.root, []⟩) := by
  obtain ⟨hroot, hs⟩ := returns_ok_iff.mp h
  exact returns_ok_iff.mpr ⟨hroot, hs.repaired hs.isListed_top (by simp [Visit.top])⟩

/-- In the small tree a file and a directory are taken away. -/
theorem returns_strict_repaired_linked : ∃ s,
    lenient.Returns MemoryTree.linked.answers (.ofString "r") (.ok s) ∧
      s.skipped.map Skip.path = [.ofString "r/x.j", .ofString "r/a/k"] ∧
      severe.Returns
        (MemoryTree.linked.answers.repaired lenient.selector (.ofString "r") fun _ => .ofString "r")
        (.ofString "r") (.ok ⟨s.root, []⟩) := by
  obtain ⟨levels, s, hrun, -, -, hpaths⟩ := exists_run?_linked
  have h : lenient.Returns MemoryTree.linked.answers (.ofString "r") (.ok s) := ⟨levels, hrun⟩
  exact ⟨s, h, hpaths, returns_strict_repaired h _⟩

end Plan

end KeywordSurvey
