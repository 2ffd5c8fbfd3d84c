import KeywordSurvey.Proofs.SourceTree.Descent
import KeywordSurvey.Proofs.Survey.Yields

/-!
# What a run does not depend on

Trees that agree for a selector (`Selector.Agree`) may list their directories
in different orders, with different entries of no concern to it, and may
answer differently about any file that it does not take. A run cannot tell
them apart (`run?_eq_of_agree`): names are sorted after they were chosen, and
no question is asked about what was not.
-/

namespace KeywordSurvey

namespace Selector

/-- Is the entry a directory or a file that is taken? -/
def concerns (s : Selector) (e : Entry) : Bool := e.kind == .directory || s.takes e

/-- Two answers to the question for the entries of a directory that are the
same but for the order and for entries of no concern. -/
inductive SameListing (s : Selector) :
    Except Failure (List Entry) → Except Failure (List Entry) → Prop
  | failed (f : Failure) : SameListing s (.error f) (.error f)
  | listed {entries others : List Entry} :
      (entries.filter s.concerns).Perm (others.filter s.concerns) →
      SameListing s (.ok entries) (.ok others)

/-- The trees answer alike as far as a survey of the files that are taken is
concerned. -/
structure Agree (s : Selector) (tree other : SourceTree) : Prop where
  isDirectory : ∀ path, tree.isDirectory path = other.isDirectory path
  identity : ∀ dir, tree.identity dir = other.identity dir
  list : ∀ dir, s.SameListing (tree.list dir) (other.list dir)
  file : ∀ {dir : Path} {entries : List Entry}, tree.list dir = .ok entries →
    ∀ e ∈ entries, s.takes e = true →
      tree.size (dir.join e.name) = other.size (dir.join e.name) ∧
        tree.contents (dir.join e.name) = other.contents (dir.join e.name)

variable {s : Selector} {tree other : SourceTree} {dir : Path} {entries others : List Entry}

/-! ## Entries of no concern -/

/-- What is looked for among the entries of concern is the same in both. -/
theorem perm_filter {p : Entry → Bool} (hp : ∀ e, p e = true → s.concerns e = true)
    (h : (entries.filter s.concerns).Perm (others.filter s.concerns)) :
    (entries.filter p).Perm (others.filter p) := by
  have habsorb : ∀ l : List Entry, (l.filter s.concerns).filter p = l.filter p := by
    intro l
    rw [List.filter_filter]
    refine List.filter_congr fun e _ => ?_
    by_cases he : p e = true
    · simp [he, hp e he]
    · simp [he]
  have hperm := h.filter p
  rwa [habsorb, habsorb] at hperm

theorem files_eq_of_perm (h : (entries.filter s.concerns).Perm (others.filter s.concerns)) :
    s.files entries = s.files others :=
  sortNames_congr ((perm_filter (fun e he => by simp [concerns, he]) h).map Entry.name)

theorem subdirectories_eq_of_perm
    (h : (entries.filter s.concerns).Perm (others.filter s.concerns)) :
    subdirectories entries = subdirectories others :=
  sortNames_congr ((perm_filter (fun e he => by simp [concerns, he]) h).map Entry.name)

theorem Agree.examine (h : s.Agree tree other) (hlist : tree.list dir = .ok entries)
    {name : Bytes} (hname : name ∈ s.files entries) :
    tree.examine (dir.join name) = other.examine (dir.join name) := by
  rw [(s.perm_files entries).mem_iff, List.mem_map] at hname
  obtain ⟨e, he, rfl⟩ := hname
  obtain ⟨he, htakes⟩ := List.mem_filter.mp he
  obtain ⟨hsize, hcontents⟩ := h.file hlist e he htakes
  rw [SourceTree.examine, SourceTree.examine, hsize, hcontents]

end Selector

namespace Plan

variable {plan : Plan} {tree other : SourceTree}

/-! ## Runs over trees that agree -/

/-- The same is met on every level. -/
theorem explore_eq_of_agree (h : plan.selector.Agree tree other) (levels : Nat) :
    ∀ (lineage : List Path) (dir : Path),
      plan.explore tree levels lineage dir = plan.explore other levels lineage dir := by
  induction levels with
  | zero =>
    intro lineage dir
    rfl
  | succ levels ih =>
    intro lineage dir
    rw [explore, explore, h.identity dir]
    cases other.identity dir with
    | error f => rfl
    | ok identity =>
      dsimp only
      split
      · rfl
      have hsame := h.list dir
      generalize hlist : tree.list dir = listing at hsame
      generalize other.list dir = listing' at hsame
      cases hsame with
      | failed f => rfl
      | @listed entries others hperm =>
        have hfiles : plan.examineAll tree dir entries = plan.examineAll other dir others := by
          unfold examineAll
          rw [← Selector.files_eq_of_perm hperm]
          refine List.map_congr_left fun name hname => ?_
          simp only [h.examine hlist hname]
        simp only [hfiles, ih, Selector.subdirectories_eq_of_perm hperm]

/-- **A run does not depend on the order of listings nor on what it does not
look at.** Over trees that agree it comes to the same end with any number of
levels: the same survey with the same paths left out, or the same failure. -/
theorem run?_eq_of_agree (h : plan.selector.Agree tree other) (levels : Nat) (root : Path) :
    plan.run? tree levels root = plan.run? other levels root := by
  rw [run?, run?, h.isDirectory root, explore_eq_of_agree h levels [] root]

/-! ## The small tree in disguise -/

/-- The small tree with every listing backwards behind a pipe, and with
nothing in the files that `lenient` does not take. -/
def disguised : SourceTree :=
  { MemoryTree.linked.answers with
    list := fun dir => (MemoryTree.linked.answers.list dir).map fun entries =>
      ⟨Utf8.ofString "pipe", .other⟩ :: entries.reverse
    contents := fun path =>
      if lenient.selector.selects path.bytes then MemoryTree.linked.answers.contents path
      else .ok [] }

theorem agree_disguised : lenient.selector.Agree MemoryTree.linked.answers disguised where
  isDirectory _ := rfl
  identity _ := rfl
  list dir := by
    show lenient.selector.SameListing _ (Except.map _ (MemoryTree.linked.answers.list dir))
    cases MemoryTree.linked.answers.list dir with
    | error f => exact .failed f
    | ok entries =>
      apply Selector.SameListing.listed
      rw [List.filter_cons_of_neg (by decide)]
      exact (List.reverse_perm entries).symm.filter _
  file := by
    intro dir entries _ e _ htakes
    refine ⟨rfl, (if_pos ?_).symm⟩
    have hselects : lenient.selector.selects e.name = true := by
      unfold Selector.takes at htakes
      split at htakes
      · exact htakes
      · cases htakes
    exact List.isSuffixOf_iff_suffix.mpr
      ((List.isSuffixOf_iff_suffix.mp hselects).trans (Path.suffix_join dir e.name))

/-- The disguise shows in the listing of the root, and a run yields the same
survey. -/
theorem run?_eq_of_agree_linked :
    lenient.selector.Agree MemoryTree.linked.answers disguised ∧
      (disguised.list (.ofString "r")).toOption.map List.length = some 5 ∧
      ∃ levels s, lenient.run? disguised levels (.ofString "r") = some (.ok s) ∧
        s.root.report.files.val = 2 ∧
        s.skipped.map Skip.path = [.ofString "r/x.j", .ofString "r/a/k"] := by
  obtain ⟨levels, s, hrun, -, hfiles, hpaths⟩ := exists_run?_linked
  rw [run?_eq_of_agree agree_disguised] at hrun
  exact ⟨agree_disguised, rfl, levels, s, hrun, hfiles, hpaths⟩

end Plan

end KeywordSurvey
