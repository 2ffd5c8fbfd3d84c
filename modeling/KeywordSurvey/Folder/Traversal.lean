import KeywordSurvey.Folder.Basic

/-!
# Walking through a folder

The directories of a folder one by one, from a stack of those still to come. Each step takes
the topmost one and puts its children in its place, so every directory comes before those below
it and siblings keep their order.
-/

namespace KeywordSurvey.Folder

mutual

/-- The number of directories. -/
def weight : Folder → Nat
  | mk _ _ children => 1 + weights children

/-- The number of directories in several folders. -/
def weights : List Folder → Nat
  | [] => 0
  | folder :: folders => weight folder + weights folders

end

/-- Directories still to come, each with its level. -/
abbrev Stack := List (Nat × Folder)

namespace Stack

/-- The number of steps that are left. -/
def weight (stack : Stack) : Nat := weights (stack.map Prod.snd)

/-- The stack after its topmost directory has been taken: its children stand in its place. -/
def expand (level : Nat) (folder : Folder) (rest : Stack) : Stack :=
  folder.children.map (fun child => (level + 1, child)) ++ rest

theorem weights_append (a b : List Folder) : weights (a ++ b) = weights a + weights b := by
  induction a with
  | nil => simp [weights]
  | cons f a ih => simp [weights, ih, Nat.add_assoc]

/-- Each step takes one directory off. -/
theorem weight_expand (level : Nat) (folder : Folder) (rest : Stack) :
    weight ((level, folder) :: rest) = weight (expand level folder rest) + 1 := by
  obtain ⟨path, report, children⟩ := folder
  simp [weight, expand, weights, Folder.weight, Folder.children, weights_append,
    Function.comp_def]
  omega

/-- All directories that are still to come. -/
def toList : Stack → List (Nat × Folder)
  | [] => []
  | (level, folder) :: rest => (level, folder) :: toList (expand level folder rest)
termination_by stack => weight stack
decreasing_by rw [weight_expand]; exact Nat.lt_succ_self _

end Stack

/-- The folder and everything below it, each directory with its level. -/
def visits (folder : Folder) : List (Nat × Folder) := Stack.toList [(0, folder)]

/-- The number of directories, the folder itself included. -/
def directoryCount (folder : Folder) : Nat := folder.visits.length

end KeywordSurvey.Folder
