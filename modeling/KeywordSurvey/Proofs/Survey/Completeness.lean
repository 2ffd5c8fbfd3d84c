import KeywordSurvey.Proofs.Exploration.Files
import KeywordSurvey.Proofs.Survey.Outcomes
import KeywordSurvey.Proofs.Survey.Skipped

/-!
# Complete surveys

A plan that puts up with no failure yields exactly those surveys that a plan
that does yields with nothing left out (`returns_strict_iff_complete`). So a
complete survey is a survey of everything: no directory below the root failed
to be listed, and no file that is taken failed to be read (`isComplete_iff`).
-/

namespace KeywordSurvey

theorem Survey.isComplete_iff (s : Survey) : s.isComplete = true ↔ s.skipped = [] :=
  List.isEmpty_iff

/-- Nothing is left out on a visit on which nothing fails. -/
theorem skipsAt_eq_nil_iff {selector : Selector} {tree : SourceTree} {v : Visit} :
    skipsAt selector tree v = [] ↔
      (∀ f, tree.standing v ≠ .unlisted f) ∧
        ∀ e ∈ takenAt selector tree v, tree.fault? (v.dir.join e.name) = none := by
  unfold skipsAt faultyAt takenAt
  cases tree.standing v with
  | unlisted f => simp
  | cycle => simp
  | expanded entries =>
    have hperm := selector.perm_files entries
    simp only [List.filterMap_eq_nil_iff, Option.map_eq_none_iff, hperm.mem_iff, List.mem_map]
    constructor
    · intro h
      exact ⟨fun f => nofun, fun e he => h e.name ⟨e, he, rfl⟩⟩
    · rintro ⟨-, h⟩ name ⟨e, he, rfl⟩
      exact h e he

namespace Plan

variable {selector : Selector} {tree : SourceTree} {v : Visit} {s : Survey} {root : Path}

namespace Yields

/-! ## From one policy to the other -/

/-- What is yielded without any failure is yielded by a plan that would put up
with some. -/
theorem tolerant (h : Yields ⟨selector, .strict⟩ tree v s) :
    Yields ⟨selector, .skip⟩ tree v s ∧ s.skipped = [] := by
  induction h with
  | cycle hv => exact ⟨.cycle hv, rfl⟩
  | unlisted _ _ htol => cases (Policy.tolerate_eq_ok_iff.mp htol).1
  | @expanded v entries own below s hv hown hnames _ hs ih =>
    obtain ⟨hown, hempty⟩ := Policy.gatherAll_strict_eq_ok_iff.mp hown
    refine ⟨.expanded hv hown hnames (fun b hb => (ih b hb).1) hs, ?_⟩
    rw [(Exploration.combine_eq_ok_iff.mp hs).2, hempty, List.nil_append, List.flatMap_map,
      List.flatMap_eq_nil_iff]
    exact fun b hb => (ih b hb).2

/-- What is yielded with nothing left out is yielded without any failure. -/
theorem strict (h : Yields ⟨selector, .skip⟩ tree v s) (hcomplete : s.skipped = []) :
    Yields ⟨selector, .strict⟩ tree v s := by
  induction h with
  | cycle hv => exact .cycle hv
  | unlisted _ _ _ => cases hcomplete
  | @expanded v entries own below s hv hown hnames _ hs ih =>
    -- what is left out here or below would be left out of the whole
    rw [(Exploration.combine_eq_ok_iff.mp hs).2, List.append_eq_nil_iff, List.flatMap_map,
      List.flatMap_eq_nil_iff] at hcomplete
    obtain ⟨hempty, hbelow⟩ := hcomplete
    exact .expanded hv (Policy.gatherAll_strict_eq_ok_iff.mpr ⟨hown, hempty⟩) hnames
      (fun b hb => ih b hb (hbelow b hb)) hs

/-- A survey is complete if nothing fails on any visit. -/
theorem isComplete_iff {plan : Plan} (h : plan.Yields tree v s) :
    s.isComplete = true ↔ ∀ w ∈ (s.root.nodes v.above).map Prod.fst,
      (∀ f, tree.standing w ≠ .unlisted f) ∧
        ∀ e ∈ takenAt plan.selector tree w, tree.fault? (w.dir.join e.name) = none := by
  rw [Survey.isComplete_iff, h.skipped_eq, List.flatMap_eq_nil_iff]
  exact forall₂_congr fun w _ => skipsAt_eq_nil_iff

end Yields

/-! ## Runs -/

/-- A run that ends at any failure returns what the run that puts up with
failures returns with nothing left out. -/
theorem returns_strict_ok_iff :
    Returns ⟨selector, .strict⟩ tree root (.ok s) ↔
      Returns ⟨selector, .skip⟩ tree root (.ok s) ∧ s.skipped = [] := by
  rw [returns_ok_iff, returns_ok_iff]
  constructor
  · rintro ⟨hroot, hs⟩
    exact ⟨⟨hroot, hs.tolerant.1⟩, hs.tolerant.2⟩
  · rintro ⟨⟨hroot, hs⟩, hcomplete⟩
    exact ⟨hroot, hs.strict hcomplete⟩

/-- **A partial result is never taken for a full one.** A run that ends at any
failure returns a survey exactly if the run that puts up with failures returns
it with nothing left out. So its surveys are complete; and a survey of the
other run is complete exactly if no file that is taken and no directory failed
anywhere on its walk. -/
theorem returns_strict_iff_complete (selector : Selector) (tree : SourceTree) (root : Path) :
    (∀ s, Returns ⟨selector, .strict⟩ tree root (.ok s) ↔
      Returns ⟨selector, .skip⟩ tree root (.ok s) ∧ s.skipped = []) ∧
    (∀ s, Returns ⟨selector, .strict⟩ tree root (.ok s) → s.isComplete = true) ∧
    (∀ s, Returns ⟨selector, .skip⟩ tree root (.ok s) →
      ∃ visits, tree.Walk (Visit.top root) visits ∧
        (s.isComplete = true ↔ ∀ v ∈ visits,
          (∀ f, tree.standing v ≠ .unlisted f) ∧
            ∀ e ∈ takenAt selector tree v, tree.fault? (v.dir.join e.name) = none)) := by
  have hiff : ∀ s, Returns ⟨selector, .strict⟩ tree root (.ok s) ↔
      Returns ⟨selector, .skip⟩ tree root (.ok s) ∧ s.skipped = [] :=
    fun s => returns_strict_ok_iff
  refine ⟨hiff, fun s h => s.isComplete_iff.mpr ((hiff s).mp h).2, fun s h => ?_⟩
  have hs := (returns_ok_iff.mp h).2
  exact ⟨_, hs.walk, hs.isComplete_iff⟩

theorem severe_returns_single :
    ∃ s, severe.Returns MemoryTree.single.answers (.ofString "r") (.ok s) := by
  have hfiles : lenient.selector.files [⟨Utf8.ofString "w.j", .file⟩] = [Utf8.ofString "w.j"] :=
    sortNames_of_pairwise (by decide)
  have hnames : subdirectories [⟨Utf8.ofString "w.j", .file⟩] = [] := sortNames_of_pairwise .nil
  have htop : severe.Yields MemoryTree.single.answers (Visit.top (.ofString "r")) _ :=
    @Yields.expanded _ _ (Visit.top (.ofString "r")) _ _ [] _ rfl
      (by rw [examineAll, severe, hfiles]; rfl) hnames.symm (by simp) rfl
  exact ⟨_, returns_ok_iff.mpr ⟨rfl, htop⟩⟩

/-- The single file is surveyed under either policy. The survey of the small
tree is partial, and the severe plan does not return it. -/
theorem returns_strict_iff_complete_linked :
    (∃ s, severe.Returns MemoryTree.single.answers (.ofString "r") (.ok s) ∧
      lenient.Returns MemoryTree.single.answers (.ofString "r") (.ok s) ∧ s.isComplete = true) ∧
    ∃ s, lenient.Returns MemoryTree.linked.answers (.ofString "r") (.ok s) ∧
      s.isComplete = false ∧
      ¬ severe.Returns MemoryTree.linked.answers (.ofString "r") (.ok s) := by
  constructor
  · obtain ⟨s, hs⟩ := severe_returns_single
    obtain ⟨hiff, hcomplete, -⟩ :=
      returns_strict_iff_complete lenient.selector MemoryTree.single.answers (.ofString "r")
    exact ⟨s, hs, ((hiff s).mp hs).1, hcomplete s hs⟩
  · obtain ⟨levels, s, hrun, -, -, hpaths⟩ := exists_run?_linked
    have hpartial : s.skipped ≠ [] := by
      intro hempty
      simp [hempty] at hpaths
    obtain ⟨hiff, -, -⟩ :=
      returns_strict_iff_complete lenient.selector MemoryTree.linked.answers (.ofString "r")
    refine ⟨s, ⟨levels, hrun⟩, ?_, fun hs => hpartial ((hiff s).mp hs).2⟩
    rw [Bool.eq_false_iff, Ne, s.isComplete_iff]
    exact hpartial

end Plan

end KeywordSurvey
