import KeywordSurvey.Folder.Basic
import KeywordSurvey.Proofs.SourceTree.Walk

/-!
# The directories of a folder as visits

`Folder.nodes` lists the directories of a folder as `Folder.listing` does,
each with the directories above it and not only with its level.
-/

namespace KeywordSurvey.Folder

mutual

/-- The directories of a folder, each before those below it and with those
above it; the folder itself lies under the directories `above`. -/
def nodes (above : List Path) : Folder → List (Visit × Folder)
  | mk path report children =>
    (⟨above, path⟩, mk path report children) :: nodesAll (path :: above) children

/-- The directories of several folders. -/
def nodesAll (above : List Path) : List Folder → List (Visit × Folder)
  | [] => []
  | folder :: folders => nodes above folder ++ nodesAll above folders

end

theorem nodesAll_eq_flatMap (above : List Path) (folders : List Folder) :
    nodesAll above folders = folders.flatMap (nodes above) := by
  induction folders with
  | nil => rfl
  | cons folder folders ih => rw [nodesAll, ih, List.flatMap_cons]

theorem nodes_eq (above : List Path) (folder : Folder) :
    folder.nodes above
      = (⟨above, folder.path⟩, folder) ::
        folder.children.flatMap (nodes (folder.path :: above)) := by
  obtain ⟨path, report, children⟩ := folder
  rw [nodes, nodesAll_eq_flatMap]
  rfl

@[simp] theorem nodes_leaf (above : List Path) (dir : Path) :
    (leaf dir).nodes above = [(⟨above, dir⟩, leaf dir)] := rfl

mutual

/-- The level in a listing is the number of directories above. -/
theorem listing_eq (above : List Path) : (folder : Folder) →
    folder.listing above.length = (folder.nodes above).map fun n => (n.1.level, n.2)
  | mk path report children => by
    rw [listing, nodes, List.map_cons, ← listings_eq (path :: above) children]
    rfl

theorem listings_eq (above : List Path) : (folders : List Folder) →
    listings above.length folders = (nodesAll above folders).map fun n => (n.1.level, n.2)
  | [] => rfl
  | folder :: folders => by
    rw [listings, nodesAll, List.map_append, listing_eq above folder,
      listings_eq above folders]

end

mutual

/-- **Subtrees are not broken up**: wherever a directory stands among the nodes
of a folder, its own nodes follow. -/
theorem nodes_prefix_of_split : (folder : Folder) → ∀ {above : List Path}
    {before after : List (Visit × Folder)} {n : Visit × Folder},
    folder.nodes above = before ++ n :: after → n.2.nodes n.1.above <+: n :: after
  | mk path report children, above, [], after, n, h => by
    rw [nodes, List.nil_append, List.cons.injEq] at h
    obtain ⟨rfl, rfl⟩ := h
    exact List.prefix_rfl
  | mk path report children, above, b :: before, after, n, h => by
    rw [nodes, List.cons_append, List.cons.injEq] at h
    exact nodesAll_prefix_of_split children h.2

theorem nodesAll_prefix_of_split : (folders : List Folder) → ∀ {above : List Path}
    {before after : List (Visit × Folder)} {n : Visit × Folder},
    nodesAll above folders = before ++ n :: after → n.2.nodes n.1.above <+: n :: after
  | [], above, before, after, n, h => by simp [nodesAll] at h
  | folder :: folders, above, before, after, n, h => by
    rw [nodesAll, List.append_eq_append_iff] at h
    rcases h with ⟨between, -, hlater⟩ | ⟨part, hfolder, hpart⟩
    · exact nodesAll_prefix_of_split folders hlater
    · cases part with
      | nil =>
        have hfirst : nodesAll above folders = [] ++ n :: after := hpart.symm
        exact nodesAll_prefix_of_split folders hfirst
      | cons m part =>
        -- the directory lies in the first folder, and so does what is below it
        rw [List.cons_append, List.cons.injEq] at hpart
        obtain ⟨rfl, rfl⟩ := hpart
        exact (nodes_prefix_of_split folder hfolder).trans
          (List.prefix_append (n :: part) (nodesAll above folders))

end

end KeywordSurvey.Folder
