import Mathlib.Algebra.BigOperators.Group.List.Basic
import Mathlib.Algebra.GroupWithZero.Nat
import KeywordSurvey.Proofs.Folder.Nodes
import KeywordSurvey.Proofs.Folder.Preorder

/-!
# Addresses in a folder

A directory in a folder has an address, which says what child to go to on each
level on the way to it. The walk through a folder meets its directories in the
order of their addresses, and its stack empties just then
(`visits_eq_addressed`): directories above others come first, and siblings come
in their order, each with all that lies below it.
-/

namespace KeywordSurvey.Folder

/-! ## Addresses -/

/-- The directory at an address. -/
def at? : Folder → List Nat → Option Folder
  | folder, [] => some folder
  | folder, i :: address => folder.children[i]?.bind fun child => at? child address

mutual

/-- The directories of a folder, with their addresses. -/
def addressed : Folder → List (List Nat × Folder)
  | mk path report children => ([], mk path report children) :: addressedFrom 0 children

/-- The directories of several children, the first of which is number `i`. -/
def addressedFrom (i : Nat) : List Folder → List (List Nat × Folder)
  | [] => []
  | folder :: folders =>
    (addressed folder).map (fun a => (i :: a.1, a.2)) ++ addressedFrom (i + 1) folders

end

mutual

/-- **Each directory of a folder has an address**, and each address a directory. -/
theorem mem_addressed_iff : (folder : Folder) → ∀ {address : List Nat} {below : Folder},
    (address, below) ∈ folder.addressed ↔ folder.at? address = some below
  | mk path report children, [], below => by
    have hnil : ([], below) ∉ addressedFrom 0 children := by
      simp [mem_addressedFrom_iff children]
    rw [addressed, List.mem_cons, or_iff_left hnil, at?, Prod.mk.injEq, Option.some.injEq,
      and_iff_right rfl, eq_comm]
  | mk path report children, i :: address, below => by
    rw [addressed, List.mem_cons, or_iff_right (by simp), mem_addressedFrom_iff children, at?,
      Option.bind_eq_some_iff]
    simp only [Nat.zero_add, List.cons.injEq]
    constructor
    · rintro ⟨_, _, child, ⟨rfl, rfl⟩, hchild, hat⟩
      exact ⟨child, hchild, hat⟩
    · rintro ⟨child, hchild, hat⟩
      exact ⟨i, address, child, ⟨rfl, rfl⟩, hchild, hat⟩

theorem mem_addressedFrom_iff : (folders : List Folder) → ∀ {i : Nat} {address : List Nat}
    {below : Folder}, (address, below) ∈ addressedFrom i folders ↔
      ∃ j rest child, address = (i + j) :: rest ∧ folders[j]? = some child ∧
        child.at? rest = some below
  | [], i, address, below => by simp [addressedFrom]
  | folder :: folders, i, address, below => by
    have hfirst : (address, below) ∈ folder.addressed.map (fun a => (i :: a.1, a.2)) ↔
        ∃ rest, address = i :: rest ∧ folder.at? rest = some below := by
      rw [List.mem_map]
      constructor
      · rintro ⟨⟨rest, _⟩, hmem, heq⟩
        obtain ⟨rfl, rfl⟩ := Prod.mk.inj heq
        exact ⟨rest, rfl, (mem_addressed_iff folder).mp hmem⟩
      · rintro ⟨rest, rfl, hat⟩
        exact ⟨(rest, below), (mem_addressed_iff folder).mpr hat, rfl⟩
    rw [addressedFrom, List.mem_append, hfirst, mem_addressedFrom_iff folders]
    constructor
    · rintro (⟨rest, rfl, hat⟩ | ⟨j, rest, child, rfl, hchild, hat⟩)
      · exact ⟨0, rest, folder, rfl, rfl, hat⟩
      · exact ⟨j + 1, rest, child, by rw [Nat.add_right_comm, Nat.add_assoc], hchild, hat⟩
    · rintro ⟨_ | j, rest, child, rfl, hchild, hat⟩
      · cases hchild
        exact .inl ⟨rest, rfl, hat⟩
      · exact .inr ⟨j, rest, child, by rw [Nat.add_right_comm, Nat.add_assoc], hchild, hat⟩

end

/-! ## Their order -/

mutual

/-- The addresses increase: shorter ones come before longer ones that they are
a part of, and smaller numbers before larger ones. -/
theorem pairwise_addressed : (folder : Folder) →
    (folder.addressed.map Prod.fst).Pairwise (· < ·)
  | mk path report children => by
    rw [addressed, List.map_cons, List.pairwise_cons]
    refine ⟨fun address haddress => ?_, pairwise_addressedFrom children 0⟩
    obtain ⟨⟨address, below⟩, hmem, rfl⟩ := List.mem_map.mp haddress
    obtain ⟨j, rest, -, rfl, -⟩ := (mem_addressedFrom_iff children).mp hmem
    exact List.nil_lt_cons _ rest

theorem pairwise_addressedFrom : (folders : List Folder) → ∀ i : Nat,
    ((addressedFrom i folders).map Prod.fst).Pairwise (· < ·)
  | [], _ => .nil
  | folder :: folders, i => by
    rw [addressedFrom, List.map_append, List.map_map, List.pairwise_append]
    refine ⟨?_, pairwise_addressedFrom folders (i + 1), ?_⟩
    · have hfirst := (pairwise_addressed folder).map (S := (· < ·)) (i :: ·)
        fun _ _ hlt => List.cons_lt_cons_iff.mpr (.inr ⟨rfl, hlt⟩)
      rwa [List.map_map] at hfirst
    · intro first hfirst later hlater
      obtain ⟨a, -, rfl⟩ := List.mem_map.mp hfirst
      obtain ⟨⟨address, below⟩, hmem, rfl⟩ := List.mem_map.mp hlater
      obtain ⟨j, rest, -, rfl, -⟩ := (mem_addressedFrom_iff folders).mp hmem
      exact List.cons_lt_cons_iff.mpr (.inl (by omega))

end

/-! ## The walk -/

mutual

/-- The level of a directory is the length of its address. -/
theorem listing_eq_addressed : (folder : Folder) → ∀ level : Nat,
    folder.listing level = folder.addressed.map fun a => (level + a.1.length, a.2)
  | mk path report children, level => by
    rw [listing, addressed, List.map_cons, listings_eq_addressedFrom children level 0]
    rfl

theorem listings_eq_addressedFrom : (folders : List Folder) → ∀ level i : Nat,
    listings (level + 1) folders
      = (addressedFrom i folders).map fun a => (level + a.1.length, a.2)
  | [], _, _ => rfl
  | folder :: folders, level, i => by
    rw [listings, addressedFrom, List.map_append, List.map_map,
      listing_eq_addressed folder (level + 1), listings_eq_addressedFrom folders level (i + 1)]
    congr 1
    refine List.map_congr_left fun a _ => ?_
    rw [Function.comp_apply, List.length_cons, Nat.add_assoc, Nat.add_comm 1]

end

theorem visits_eq_map_addressed (folder : Folder) :
    folder.visits = folder.addressed.map fun a => (a.1.length, a.2) := by
  rw [visits_eq_listing, listing_eq_addressed]
  simp only [Nat.zero_add]

/-- A listing that starts on a deeper level goes deeper. -/
theorem listing_eq_visits (folder : Folder) (level : Nat) :
    folder.listing level = folder.visits.map fun v => (level + v.1, v.2) := by
  rw [visits_eq_map_addressed, listing_eq_addressed, List.map_map]
  rfl

/-- The walk comes to the folder, and then it walks through its children one
level further down. -/
theorem visits_eq_cons (folder : Folder) :
    folder.visits = (0, folder) :: folder.children.flatMap fun child =>
      child.visits.map fun v => (v.1 + 1, v.2) := by
  rw [visits_eq_listing, listing_eq_cons]
  refine congrArg _ (List.flatMap_congr fun child _ => ?_)
  rw [listing_eq_visits]
  simp only [Nat.zero_add, Nat.add_comm 1]

/-- Where a directory is met, the walk through it follows. -/
theorem visits_of_split {folder below : Folder} {before after : List (Nat × Folder)} {level : Nat}
    (h : folder.visits = before ++ (level, below) :: after) :
    (below.visits.map fun v => (level + v.1, v.2)) <+: (level, below) :: after := by
  rw [visits_eq_listing] at h
  have hnodes : folder.listing 0 = (folder.nodes []).map fun n => (n.1.level, n.2) :=
    listing_eq [] folder
  obtain ⟨before', after', hsplit, rfl, hafter⟩ := List.map_eq_append_iff.mp (hnodes.symm.trans h)
  obtain ⟨n, after', rfl, hn, rfl⟩ := List.map_eq_cons_iff.mp hafter
  obtain ⟨rfl, rfl⟩ := Prod.mk.injEq _ _ _ _ ▸ hn
  have hbelow := (nodes_prefix_of_split folder hsplit).map fun n => (n.1.level, n.2)
  rw [← listing_eq, listing_eq_visits, List.map_cons] at hbelow
  exact hbelow

theorem directoryCount_eq (folder : Folder) :
    folder.directoryCount = 1 + (folder.children.map directoryCount).sum := by
  rw [directoryCount, visits_eq_cons, List.length_cons, List.length_flatMap, Nat.add_comm]
  simp only [List.length_map]
  rfl

/-! ## The stack -/

namespace Stack

/-- The topmost directory, and the stack after it has been taken. -/
def next? : Stack → Option ((Nat × Folder) × Stack)
  | [] => none
  | (level, folder) :: rest => some ((level, folder), expand level folder rest)

/-- Taking one directory after the other empties the stack, and these are the
directories. -/
inductive Empties : Stack → List (Nat × Folder) → Prop
  | done {stack : Stack} : stack.next? = none → Empties stack []
  | take {stack rest : Stack} {visit : Nat × Folder} {visits : List (Nat × Folder)} :
      stack.next? = some (visit, rest) → Empties rest visits → Empties stack (visit :: visits)

/-- Every stack empties, and only in one way. -/
theorem empties_iff {stack : Stack} {visits : List (Nat × Folder)} :
    stack.Empties visits ↔ visits = stack.toList := by
  constructor
  · intro h
    induction h with
    | @done stack hnext =>
      cases stack with
      | nil => rw [toList]
      | cons visit rest => cases hnext
    | @take stack rest visit visits hnext _ ih =>
      cases stack with
      | nil => cases hnext
      | cons top below =>
        cases hnext
        rw [toList, ih]
  · rintro rfl
    fun_induction toList stack with
    | case1 => exact .done rfl
    | case2 level folder rest ih => exact .take rfl ih

end Stack

/-- **The walk with a stack is the walk in preorder.** The stack that holds a
folder empties, and what comes off is the folder, and then for each child in
order what comes off for the child, one level deeper. Each directory comes off
once, on the level that says how many lie above it, and in the order of the
addresses: after those above it, and siblings in their order. All that lies
below a directory follows it at once. So a folder has one directory more than
its children together. -/
theorem visits_eq_addressed (folder : Folder) :
    (∀ visits, Stack.Empties [(0, folder)] visits ↔ visits = folder.visits) ∧
    folder.visits = (0, folder) :: folder.children.flatMap (fun child =>
      child.visits.map fun v => (v.1 + 1, v.2)) ∧
    (∃ addressed : List (List Nat × Folder),
      folder.visits = addressed.map (fun a => (a.1.length, a.2)) ∧
      (∀ address below, (address, below) ∈ addressed ↔ folder.at? address = some below) ∧
      (addressed.map Prod.fst).Pairwise (· < ·)) ∧
    (∀ before level below after, folder.visits = before ++ (level, below) :: after →
      ∃ rest, (level, below) :: after
        = (below.visits.map fun v => (level + v.1, v.2)) ++ rest) ∧
    folder.directoryCount = 1 + (folder.children.map directoryCount).sum := by
  refine ⟨fun visits => Stack.empties_iff, visits_eq_cons folder, ?_,
    fun before level below after h => ?_, directoryCount_eq folder⟩
  · exact ⟨folder.addressed, visits_eq_map_addressed folder,
      fun _ _ => mem_addressed_iff folder, pairwise_addressed folder⟩
  · obtain ⟨rest, hrest⟩ := visits_of_split h
    exact ⟨rest, hrest.symm⟩

end KeywordSurvey.Folder
