import KeywordSurvey.Exploration.Basic

/-!
# Explorations come to an end

Each level of an exploration has an identity that no level above it has. A bounded tree has only
so many identities, so there is a number of levels that is enough for any exploration of it,
whatever links its listings hold.
-/

namespace KeywordSurvey

namespace BoundedTree

/-- The identities that the lineage does not hold. -/
def fresh (tree : BoundedTree) (lineage : List Path) : List Path :=
  tree.identities.filter fun known => !lineage.any known.same

/-- Taking one identity of the tree into the lineage leaves fewer fresh ones. -/
theorem fresh_cons_lt (tree : BoundedTree) {lineage : List Path} {identity known : Path}
    (hmem : known ∈ tree.identities) (hsame : known.same identity = true)
    (hnew : lineage.any identity.same = false) :
    (tree.fresh (identity :: lineage)).length < (tree.fresh lineage).length := by
  have hsub : tree.fresh (identity :: lineage)
      = (tree.fresh lineage).filter fun k => !k.same identity := by
    simp only [fresh, List.filter_filter, List.any_cons, Bool.not_or]
  rw [hsub]
  refine List.length_filter_lt_length_iff_exists.mpr ⟨known, ?_, by simp [hsame]⟩
  rw [fresh, List.mem_filter]
  refine ⟨hmem, ?_⟩
  rw [Bool.not_eq_true', List.any_eq_false]
  intro above habove hk
  have h : identity.same above = true := Path.same_trans (Path.same_symm hsame) hk
  rw [List.any_eq_false] at hnew
  exact hnew above habove h

end BoundedTree

namespace Plan

theorem mapM_isSome {α β : Type} {f : α → Option β} :
    ∀ {l : List α}, (∀ a ∈ l, (f a).isSome) → (l.mapM f).isSome
  | [], _ => rfl
  | a :: l, h => by
    obtain ⟨b, hb⟩ := Option.isSome_iff_exists.mp (h a List.mem_cons_self)
    obtain ⟨bs, hbs⟩ := Option.isSome_iff_exists.mp
      (mapM_isSome fun a ha => h a (List.mem_cons_of_mem _ ha))
    simp [List.mapM_cons, hb, hbs]

/-- As many levels as there are fresh identities, and one more, are enough. -/
theorem explore_isSome (plan : Plan) (tree : BoundedTree) :
    ∀ (levels : Nat) (lineage : List Path) (dir : Path),
      (tree.fresh lineage).length < levels →
        (plan.explore tree.toSourceTree levels lineage dir).isSome
  | 0, _, _, h => absurd h (Nat.not_lt_zero _)
  | levels + 1, lineage, dir, h => by
    unfold explore
    split
    · rfl
    · next identity hid =>
      split
      · rfl
      · next hnew =>
        split
        · rfl
        · next entries hls =>
          dsimp only
          split
          · rfl
          · rw [Option.isSome_map]
            refine mapM_isSome fun name _ => explore_isSome plan tree levels _ _ ?_
            obtain ⟨known, hmem, hsame⟩ := tree.covers hid hls
            have := tree.fresh_cons_lt hmem hsame (Bool.eq_false_iff.mpr hnew)
            omega

/-- The exploration of a bounded tree. -/
def exploration (plan : Plan) (tree : BoundedTree) (root : Path) : Exploration :=
  (plan.explore tree.toSourceTree (tree.identities.length + 1) [] root).get
    (plan.explore_isSome tree _ [] root (Nat.lt_succ_of_le (List.length_filter_le _ _)))

/-- Surveys everything below a directory of a bounded tree. -/
def run (plan : Plan) (tree : BoundedTree) (root : Path) : Except Abort Survey :=
  if tree.isDirectory root then (plan.exploration tree root).survey plan.policy true
  else .error (noRoot root)

/-- The totals of everything below a directory, without the directories themselves. -/
def aggregate (plan : Plan) (tree : BoundedTree) (root : Path) : Except Abort Report :=
  (plan.run tree root).map fun survey => survey.root.report

end Plan

end KeywordSurvey
