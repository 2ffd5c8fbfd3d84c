import KeywordSurvey.Proofs.Folder.Levels
import KeywordSurvey.Proofs.Json.RoundTrip

/-!
# Printed surveys read back

A survey that has been printed as JSON is read back with legible paths and
otherwise as it was printed, unless a directory is printed that lies too deep
(`parse_render_iff`). The directory at a level takes two nestings for each level
above it, one for the survey and three for itself: its own record, its report
and the tally in it.
-/

namespace KeywordSurvey.Json

/-! ## How deep folders nest -/

mutual

theorem nesting_writeFolder_le_iff : (folder : Folder) → ∀ {depth level : Nat},
    (writeFolder folder).nesting ≤ depth ↔
      ∀ visit ∈ folder.listing level, 2 * visit.1 + 3 ≤ depth + 2 * level
  | .mk p r children, depth, level => by
    have hchildren := fun below => @nesting_writeFolders_le_iff children below (level + 1)
    have hreport : (report.write r).nesting = 2 := rfl
    rw [writeFolder, Folder.listing, List.forall_mem_cons, Value.nesting, Value.nestingOfMembers,
      Value.nestingOfMembers, Value.nestingOfMembers, Value.nestingOfMembers, hreport,
      Value.nesting]
    constructor
    · intro h
      obtain ⟨below, rfl⟩ : ∃ below, depth = below + 2 := ⟨depth - 2, by omega⟩
      refine ⟨by omega, fun visit hvisit => ?_⟩
      have hvisit := (hchildren below).mp (by omega) visit hvisit
      omega
    · rintro ⟨htop, hbelow⟩
      obtain ⟨below, rfl⟩ : ∃ below, depth = below + 2 := ⟨depth - 2, by omega⟩
      have hitems := (hchildren below).mpr fun visit hvisit => by
        have hvisit := hbelow visit hvisit
        omega
      have hpath : (path.write p).nesting = 0 := rfl
      omega

theorem nesting_writeFolders_le_iff : (folders : List Folder) → ∀ {depth level : Nat},
    Value.nestingOfItems (writeFolders folders) ≤ depth ↔
      ∀ visit ∈ Folder.listings level folders, 2 * visit.1 + 3 ≤ depth + 2 * level
  | [], _, _ => by simp [writeFolders, Value.nestingOfItems, Folder.listings]
  | folder :: folders, _, _ => by
    rw [writeFolders, Value.nestingOfItems, Nat.max_le, Folder.listings, List.forall_mem_append,
      nesting_writeFolder_le_iff folder, nesting_writeFolders_le_iff folders]

end

mutual

theorem nesting_writeFolder_legible : (folder : Folder) →
    (writeFolder folder.legible).nesting = (writeFolder folder).nesting
  | .mk p r children => by
    simp only [Folder.legible, writeFolder, Value.nesting, Value.nestingOfMembers,
      nesting_writeFolders_legible children]
    rfl

theorem nesting_writeFolders_legible : (folders : List Folder) →
    Value.nestingOfItems (writeFolders (Folder.legibleAll folders))
      = Value.nestingOfItems (writeFolders folders)
  | [] => rfl
  | folder :: folders => by
    rw [Folder.legibleAll, writeFolders, writeFolders, Value.nestingOfItems, Value.nestingOfItems,
      nesting_writeFolder_legible folder, nesting_writeFolders_legible folders]

end

/-! ## How deep surveys nest -/

theorem nesting_skips_le (skipped : List Skip) : (skip.list.write skipped).nesting ≤ 2 := by
  refine Value.nesting_list_le_iff.mpr ⟨1, rfl, fun v hv => ?_⟩
  obtain ⟨s, -, rfl⟩ := List.mem_map.mp hv
  exact Nat.le_refl 1

/-- What was left out never nests deeper than the root. -/
theorem nesting_survey (s : Survey) :
    (survey.write s).nesting = (writeFolder s.root).nesting + 1 := by
  have hskipped := nesting_skips_le s.skipped
  have hroot : 3 ≤ (writeFolder s.root).nesting := by
    obtain ⟨p, r, children⟩ := s.root
    have htop := (@nesting_writeFolder_le_iff (.mk p r children) _ 0).mp (Nat.le_refl _)
      (0, .mk p r children) List.mem_cons_self
    omega
  simp only [survey, folder, Value.nesting, Value.nestingOfMembers]
  omega

theorem nesting_survey_legible (s : Survey) :
    (survey.write s.legible).nesting = (survey.write s).nesting := by
  rw [nesting_survey, nesting_survey, Survey.legible, nesting_writeFolder_legible]

/-- The directories that are printed, by their levels. -/
theorem forall_listing_prune_iff {root : Folder} {depth : Option Nat} {P : Nat → Prop} :
    (∀ visit ∈ (root.prune depth).listing 0, P visit.1) ↔
      ∀ visit ∈ root.listing 0, Rendering.isPrinted depth visit.1 = true → P visit.1 := by
  have hfaces := root.listing_prune depth 0
  have hlevel : depth.map (0 + ·) = depth := by cases depth <;> simp
  rw [hlevel] at hfaces
  calc (∀ visit ∈ (root.prune depth).listing 0, P visit.1)
      ↔ ∀ face ∈ ((root.prune depth).listing 0).map Folder.face, P face.1 := by
        rw [List.forall_mem_map]
        rfl
    _ ↔ _ := by
        rw [hfaces, List.forall_mem_map]
        simp only [List.mem_filter, Folder.face, and_imp]

/-- **Reading a printed survey** works out exactly if no directory is printed
that lies deeper than level 61. It yields what was printed, with legible
paths. -/
theorem parse_render_iff (s : Survey) (depth : Option Nat) (read : Survey) :
    survey.parse (s.render .json depth) = .ok read ↔
      (∀ visit ∈ s.root.listing 0, Rendering.isPrinted depth visit.1 = true → visit.1 ≤ 61) ∧
      read = ⟨(s.root.prune depth).legible, s.skipped.map Skip.legible⟩ := by
  have hdepth : (survey.write (Rendering.shown s depth)).nesting ≤ deepest ↔
      ∀ visit ∈ (s.root.prune depth).listing 0, visit.1 ≤ 61 := by
    rw [nesting_survey, show deepest = 126 + 1 from rfl, Nat.add_le_add_iff_right,
      @nesting_writeFolder_le_iff _ _ 0]
    exact forall₂_congr fun visit _ => by omega
  have hbreak : Blank ['\n'] := by simp [Blank, isBlank]
  rw [Survey.render, Rendering.json,
    survey_faithful.parse_print_append_iff hbreak (nesting_survey_legible _), hdepth,
    forall_listing_prune_iff (P := (· ≤ 61))]
  rfl

/-- A byte that is no text is read back as a replacement character. -/
example : survey.parse (Survey.render ⟨.leaf ⟨[0x61, 0xFF]⟩, []⟩ .json none)
    = .ok ⟨.leaf (.ofString "a\uFFFD"), []⟩ := by cbv

end KeywordSurvey.Json
