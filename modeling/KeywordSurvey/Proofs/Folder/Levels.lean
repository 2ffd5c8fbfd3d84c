import KeywordSurvey.Rendering

/-!
# The levels of a folder

Pruning takes away the directories on levels that are not printed, and no
others (`levels_prune`).
-/

namespace KeywordSurvey.Folder

mutual

theorem le_of_mem_listing : (folder : Folder) → ∀ {level : Nat}, ∀ visit ∈ folder.listing level,
    level ≤ visit.1
  | mk path report children, level, visit, h => by
    rw [listing] at h
    rcases List.mem_cons.mp h with rfl | h
    · exact Nat.le_refl level
    · exact Nat.le_of_succ_le (le_of_mem_listings children visit h)

theorem le_of_mem_listings : (folders : List Folder) → ∀ {level : Nat},
    ∀ visit ∈ listings level folders, level ≤ visit.1
  | [], _, _, h => by cases h
  | folder :: folders, level, visit, h => by
    rw [listings] at h
    rcases List.mem_append.mp h with h | h
    · exact le_of_mem_listing folder visit h
    · exact le_of_mem_listings folders visit h

end

/-- What is printed of a directory on a level. -/
def face (visit : Nat × Folder) : Nat × Path × Report := (visit.1, visit.2.path, visit.2.report)

mutual

/-- **Pruning keeps the directories on printed levels**, in their order and with
their paths and reports, and no others. -/
theorem listing_prune : (folder : Folder) → ∀ (depth : Option Nat) (level : Nat),
    ((folder.prune depth).listing level).map face
      = ((folder.listing level).filter fun visit =>
          Rendering.isPrinted (depth.map (level + ·)) visit.1).map face
  | mk path report children, depth, level => by
    have htop : Rendering.isPrinted (depth.map (level + ·)) level = true := by
      cases depth <;> simp [Rendering.isPrinted]
    rw [prune.eq_def, listing, listing, List.filter_cons, if_pos htop, List.map_cons,
      List.map_cons, List.cons.injEq]
    refine ⟨rfl, ?_⟩
    match depth with
    | none => exact listing_pruneAll children none (level + 1)
    | some 0 =>
      -- all other directories are on deeper levels
      have hnone : (listings (level + 1) children).filter (fun visit =>
          Rendering.isPrinted (some (level + 0)) visit.1) = [] := by
        rw [List.filter_eq_nil_iff]
        intro visit hvisit
        have hdeeper := le_of_mem_listings children visit hvisit
        simp [Rendering.isPrinted]
        omega
      exact (congrArg (List.map face) hnone).symm
    | some (d + 1) =>
      have hbelow := listing_pruneAll children (some d) (level + 1)
      rw [Option.map_some, show level + 1 + d = level + (d + 1) by omega] at hbelow
      exact hbelow

theorem listing_pruneAll : (folders : List Folder) → ∀ (depth : Option Nat) (level : Nat),
    (listings level (pruneAll depth folders)).map face
      = ((listings level folders).filter fun visit =>
          Rendering.isPrinted (depth.map (level + ·)) visit.1).map face
  | [], _, _ => rfl
  | folder :: folders, depth, level => by
    rw [pruneAll, listings, listings, List.map_append, List.filter_append, List.map_append,
      listing_prune folder depth level, listing_pruneAll folders depth level]

end

end KeywordSurvey.Folder
