import KeywordSurvey.Proofs.Folder.Levels
import KeywordSurvey.Proofs.Folder.Preorder

/-!
# Limits on the depth

Text leaves directories out while it walks through a folder, and JSON prints
a folder from which they have been pruned. Both come to the same directories
(`Rendering.render_prune`), and pruning twice is pruning once with the
stricter of the two limits.
-/

namespace KeywordSurvey

namespace Folder

/-! ## Pruning twice -/

mutual

/-- The stricter of two limits counts; no limit is no limit at all. -/
theorem prune_prune : (folder : Folder) → ∀ a b : Option Nat,
    (folder.prune a).prune b = folder.prune (Option.merge min a b)
  | mk path report children, a, b => by
    rw [prune.eq_def, prune.eq_def, prune.eq_def]
    -- one level further down a limit is one less, if there is anything below
    match a, b with
    | none, none => exact congrArg (mk path report) (pruneAll_pruneAll children none none)
    | none, some 0 => rfl
    | none, some (b + 1) =>
      exact congrArg (mk path report) (pruneAll_pruneAll children none (some b))
    | some 0, none => rfl
    | some 0, some 0 => rfl
    | some 0, some (b + 1) => simp [Option.merge, pruneAll]
    | some (a + 1), none =>
      exact congrArg (mk path report) (pruneAll_pruneAll children (some a) none)
    | some (a + 1), some 0 => simp [Option.merge]
    | some (a + 1), some (b + 1) =>
      have hbelow := pruneAll_pruneAll children (some a) (some b)
      simp only [Option.merge, Nat.succ_min_succ] at hbelow ⊢
      exact congrArg (mk path report) hbelow

theorem pruneAll_pruneAll : (folders : List Folder) → ∀ a b : Option Nat,
    pruneAll b (pruneAll a folders) = pruneAll (Option.merge min a b) folders
  | [], _, _ => rfl
  | folder :: folders, a, b => by
    rw [pruneAll, pruneAll, pruneAll, prune_prune folder a b, pruneAll_pruneAll folders a b]

end

/-! ## What is left -/

theorem isPrinted_eq_all (depth : Option Nat) (level : Nat) :
    Rendering.isPrinted depth level = depth.all fun limit => level ≤ limit := by
  cases depth <;> rfl

/-- The directories of a pruned folder are those of the folder on the levels
within the limit. -/
theorem visits_prune (folder : Folder) (depth : Option Nat) :
    (folder.prune depth).visits.map face
      = (folder.visits.filter fun visit => depth.all fun limit => visit.1 ≤ limit).map face := by
  have hlevel : depth.map (0 + ·) = depth := by simp
  simp only [visits_eq_listing, listing_prune, hlevel, isPrinted_eq_all]

end Folder

namespace Rendering

open Folder

/-! ## Text -/

/-- Directories with the same faces have the same blocks. -/
theorem flatMap_block_congr {visits others : List (Nat × Folder)}
    (h : visits.map face = others.map face) :
    (visits.flatMap fun visit => block visit.2) = others.flatMap fun visit => block visit.2 := by
  have hfaces : ∀ visits : List (Nat × Folder), (visits.flatMap fun visit => block visit.2)
      = (visits.map face).flatMap fun f => block (.mk f.2.1 f.2.2 []) := by
    intro visits
    rw [List.flatMap_map]
    rfl
  rw [hfaces visits, hfaces others, h]

theorem text_none (root : Folder) :
    text root none = root.visits.flatMap fun visit => block visit.2 := by
  have hall : (root.visits.filter fun visit => isPrinted none visit.1) = root.visits :=
    List.filter_eq_self.mpr fun _ _ => rfl
  rw [text, hall]

theorem text_eq_flatMap_prune (root : Folder) (depth : Option Nat) :
    text root depth = (root.prune depth).visits.flatMap fun visit => block visit.2 := by
  simp only [text, isPrinted_eq_all]
  exact flatMap_block_congr (visits_prune root depth).symm

/-- **Text and JSON print the same directories under every limit.** Under a
limit either form is what it is without one for the pruned folder, so the
blocks of the text are those of the directories that JSON holds, in the same
order. These are the directories on the levels within the limit, each with its
level, its path and its full report. To prune twice is to prune with the
stricter limit. -/
theorem render_prune (root : Folder) :
    (∀ depth : Option Nat,
      text root depth = (root.prune depth).visits.flatMap (fun visit => block visit.2) ∧
      (∀ format skipped, Survey.render ⟨root, skipped⟩ format depth
        = Survey.render ⟨root.prune depth, skipped⟩ format none) ∧
      (root.prune depth).visits.map face
        = (root.visits.filter fun visit => depth.all fun limit => visit.1 ≤ limit).map face) ∧
    ∀ a b : Option Nat, (root.prune a).prune b = root.prune (Option.merge min a b) := by
  refine ⟨fun depth => ⟨text_eq_flatMap_prune root depth, fun format skipped => ?_,
    visits_prune root depth⟩, prune_prune root⟩
  cases format with
  | text =>
    calc text root depth
        = (root.prune depth).visits.flatMap fun visit => block visit.2 :=
          text_eq_flatMap_prune root depth
      _ = text (root.prune depth) none := (text_none _).symm
  | json =>
    -- what is pruned already is not changed by pruning without a limit
    have hshown : shown ⟨root.prune depth, skipped⟩ none = shown ⟨root, skipped⟩ depth := by
      have hmerge : Option.merge min depth none = depth := by cases depth <;> rfl
      rw [shown, shown, prune_prune, hmerge]
    rw [Survey.render, Survey.render, json, json, hshown]

end Rendering

end KeywordSurvey
