import KeywordSurvey.Folder.Traversal

/-!
# The order of the stack

The stack of directories still to come holds whole subtrees, one after the
other and each with its own level. Taking its directories off one by one lists
these subtrees (`Stack.toList_eq_flatMap`), so the walk through a folder lists
the folder (`visits_eq_listing`).
-/

namespace KeywordSurvey.Folder

theorem listings_eq_flatMap (level : Nat) (folders : List Folder) :
    listings level folders = folders.flatMap (listing level) := by
  induction folders with
  | nil => rfl
  | cons folder folders ih => rw [listings, ih, List.flatMap_cons]

theorem listing_eq_cons (level : Nat) (folder : Folder) :
    folder.listing level
      = (level, folder) :: folder.children.flatMap (listing (level + 1)) := by
  obtain ⟨path, report, children⟩ := folder
  rw [listing, listings_eq_flatMap]
  rfl

/-- **A stack comes off as the listings of its folders**, each from its own
level on. -/
theorem Stack.toList_eq_flatMap (stack : Stack) :
    stack.toList = stack.flatMap fun visit => visit.2.listing visit.1 := by
  fun_induction Stack.toList stack with
  | case1 => rfl
  | case2 level folder rest ih =>
    -- the children that took the folder's place are the rest of its listing
    rw [ih, expand, List.flatMap_append, List.flatMap_map, List.flatMap_cons, listing_eq_cons]
    rfl

/-- The walk through a folder meets its directories in the order of its
listing. -/
theorem visits_eq_listing (folder : Folder) : folder.visits = folder.listing 0 := by
  rw [visits, Stack.toList_eq_flatMap, List.flatMap_singleton]

end KeywordSurvey.Folder
