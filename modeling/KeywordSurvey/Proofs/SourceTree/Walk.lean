import KeywordSurvey.Proofs.Results
import KeywordSurvey.SourceTree.Basic
import KeywordSurvey.Survey

/-!
# Walks

The directories of a source tree as a walk comes to them, said by the answers
of the tree alone. A `Visit` is a directory with the directories above it; its
`Standing` says what becomes of it there: it is expanded, or it cannot be
listed, or it is cut because it is one of the directories above it. A `Walk`
lists the visits below a directory depth first, each before those below it.

A walk knows nothing of reports and policies. What a survey has to count and
what it has to leave out is said of the visits of the walk: the files that can
be read (`readableAt`), those that cannot (`faultyAt`), and the paths that are
left out (`skipsAt`).
-/

namespace KeywordSurvey

/-- A directory, and the directories above it, the nearest first. -/
structure Visit where
  above : List Path
  dir : Path

namespace Visit

/-- Where a walk starts. -/
def top (dir : Path) : Visit := ⟨[], dir⟩

/-- The visit of an entry of the directory. -/
def child (v : Visit) (name : Bytes) : Visit := ⟨v.dir :: v.above, v.dir.join name⟩

/-- The number of directories above. -/
def level (v : Visit) : Nat := v.above.length

@[simp] theorem level_child (v : Visit) (name : Bytes) :
    (v.child name).level = v.level + 1 := rfl

@[simp] theorem above_child (v : Visit) (name : Bytes) :
    (v.child name).above = v.dir :: v.above := rfl

@[simp] theorem dir_child (v : Visit) (name : Bytes) :
    (v.child name).dir = v.dir.join name := rfl

/-- A directory under others: the visits from it up to the topmost one. -/
def chainOf (dir : Path) : List Path → List Visit
  | [] => [⟨[], dir⟩]
  | parent :: above => ⟨parent :: above, dir⟩ :: chainOf parent above

/-- The visit and those above it, the nearest first. -/
def chain (v : Visit) : List Visit := chainOf v.dir v.above

end Visit

/-- What becomes of a directory when it is visited. -/
inductive Standing where
  /-- Its identity or its entries cannot be had. -/
  | unlisted (failure : Failure)
  /-- It is one of the directories above it. -/
  | cycle
  | expanded (entries : List Entry)

namespace Standing

/-- Is the directory expanded? -/
def isExpanded : Standing → Bool
  | .expanded _ => true
  | _ => false

@[simp] theorem isExpanded_unlisted (f : Failure) : (unlisted f).isExpanded = false := rfl

@[simp] theorem isExpanded_cycle : cycle.isExpanded = false := rfl

@[simp] theorem isExpanded_expanded (entries : List Entry) :
    (expanded entries).isExpanded = true := rfl

theorem isExpanded_iff {s : Standing} :
    s.isExpanded = true ↔ ∃ entries, s = .expanded entries := by
  cases s <;> simp

end Standing

namespace SourceTree

/-! ## Directories -/

/-- The identities of those directories that have one. -/
def lineage (tree : SourceTree) (dirs : List Path) : List Path :=
  dirs.filterMap fun dir => (tree.identity dir).toOption

def standing (tree : SourceTree) (v : Visit) : Standing :=
  match tree.identity v.dir with
  | .error f => .unlisted f
  | .ok identity =>
    if (tree.lineage v.above).any identity.same then .cycle
    else
      match tree.list v.dir with
      | .error f => .unlisted f
      | .ok entries => .expanded entries

@[simp] theorem lineage_nil (tree : SourceTree) : tree.lineage [] = [] := rfl

theorem lineage_cons {tree : SourceTree} {dir identity : Path}
    (h : tree.identity dir = .ok identity) (above : List Path) :
    tree.lineage (dir :: above) = identity :: tree.lineage above := by
  simp [lineage, h, Except.toOption]

theorem mem_lineage {tree : SourceTree} {dirs : List Path} {identity : Path} :
    identity ∈ tree.lineage dirs ↔ ∃ dir ∈ dirs, tree.identity dir = .ok identity := by
  simp only [lineage, List.mem_filterMap]
  refine exists_congr fun dir => and_congr_right fun _ => ?_
  cases tree.identity dir <;> simp [Except.toOption]

section

variable {tree : SourceTree} {v : Visit} {identity : Path} {f : Failure}

theorem standing_of_no_identity (h : tree.identity v.dir = .error f) :
    tree.standing v = .unlisted f := by
  simp [standing, h]

variable (h : tree.identity v.dir = .ok identity)

include h

theorem standing_of_known (hknown : (tree.lineage v.above).any identity.same = true) :
    tree.standing v = .cycle := by
  simp only [standing, h]
  exact if_pos hknown

theorem standing_of_new (hnew : ¬ (tree.lineage v.above).any identity.same = true) :
    tree.standing v =
      match tree.list v.dir with
      | .error f => .unlisted f
      | .ok entries => .expanded entries := by
  simp only [standing, h]
  exact if_neg hnew

end

theorem standing_eq_cycle_iff {tree : SourceTree} {v : Visit} :
    tree.standing v = .cycle ↔
      ∃ identity, tree.identity v.dir = .ok identity ∧
        (tree.lineage v.above).any identity.same = true := by
  cases hid : tree.identity v.dir with
  | error f => simp [standing_of_no_identity hid]
  | ok identity =>
    simp only [Except.ok.injEq, exists_eq_left']
    by_cases hknown : (tree.lineage v.above).any identity.same = true
    · simp [standing_of_known hid hknown, hknown]
    · rw [standing_of_new hid hknown]
      cases tree.list v.dir <;> simp [hknown]

/-- A directory that is not listed has no identity, or it is new and has no
entries. -/
theorem standing_eq_unlisted_iff {tree : SourceTree} {v : Visit} {f : Failure} :
    tree.standing v = .unlisted f ↔ tree.identity v.dir = .error f ∨
      ∃ identity, tree.identity v.dir = .ok identity ∧
        (tree.lineage v.above).any identity.same = false ∧ tree.list v.dir = .error f := by
  cases hid : tree.identity v.dir with
  | error g => simp [standing_of_no_identity hid]
  | ok identity =>
    simp only [reduceCtorEq, Except.ok.injEq, exists_eq_left', false_or]
    by_cases hknown : (tree.lineage v.above).any identity.same = true
    · simp [standing_of_known hid hknown, hknown]
    · rw [standing_of_new hid hknown]
      cases tree.list v.dir <;> simp [hknown]

/-- **What it is to be expanded**: the directory has an identity and entries,
and the identity is not that of a directory above it. -/
theorem standing_eq_expanded_iff {tree : SourceTree} {v : Visit} {entries : List Entry} :
    tree.standing v = .expanded entries ↔
      ∃ identity, tree.identity v.dir = .ok identity ∧ tree.list v.dir = .ok entries ∧
        ∀ dir ∈ v.above, ∀ other, tree.identity dir = .ok other →
          identity.same other = false := by
  cases hid : tree.identity v.dir with
  | error f => simp [standing_of_no_identity hid]
  | ok identity =>
    have hnew : (¬ (tree.lineage v.above).any identity.same = true) ↔
        ∀ dir ∈ v.above, ∀ other, tree.identity dir = .ok other →
          identity.same other = false := by
      simp only [Bool.not_eq_true, List.any_eq_false, mem_lineage]
      exact ⟨fun h dir hdir other ho => h other ⟨dir, hdir, ho⟩,
        fun h other ⟨dir, hdir, ho⟩ => h dir hdir other ho⟩
    simp only [Except.ok.injEq, exists_eq_left', ← hnew]
    by_cases hknown : (tree.lineage v.above).any identity.same = true
    · simp [standing_of_known hid hknown, hknown]
    · rw [standing_of_new hid hknown]
      cases tree.list v.dir <;> simp [hknown]

/-- The visits of a walk, depth first: a directory that is expanded comes
before its subdirectories, which follow in the order of their names. -/
inductive Walk (tree : SourceTree) : Visit → List Visit → Prop
  | closed {v : Visit} :
      (tree.standing v).isExpanded = false → Walk tree v [v]
  | expanded {v : Visit} {entries : List Entry} {below : List (Bytes × List Visit)} :
      tree.standing v = .expanded entries →
      below.map Prod.fst = subdirectories entries →
      (∀ b ∈ below, Walk tree (v.child b.1) b.2) →
      Walk tree v (v :: below.flatMap Prod.snd)

/-- A walk is determined by where it starts. -/
theorem Walk.unique {tree : SourceTree} {v : Visit} {visits others : List Visit}
    (h : tree.Walk v visits) (h' : tree.Walk v others) : visits = others := by
  induction h generalizing others with
  | closed hclosed =>
    cases h' with
    | closed => rfl
    | expanded hv => simp [hv] at hclosed
  | @expanded v entries below hv hnames _ ih =>
    cases h' with
    | closed hclosed => simp [hv] at hclosed
    | @expanded _ entries' below' hv' hnames' hbelow' =>
      obtain rfl := Standing.expanded.inj (hv.symm.trans hv')
      have hsame : below = below' :=
        eq_of_map_fst_eq (hnames.trans hnames'.symm) fun name part part' hpart hpart' =>
          ih (name, part) hpart (hbelow' (name, part') hpart')
      rw [hsame]

/-! ## Files -/

/-- The file under a path, if its size and its contents can both be had. -/
def readable? (tree : SourceTree) (path : Path) : Option SourceFile :=
  match tree.size path, tree.contents path with
  | .ok size, .ok text => some ⟨size, text⟩
  | _, _ => none

/-- Why the file under a path cannot be read: the failure to have its size, and
only if there is a size the failure to have its contents. -/
def fault? (tree : SourceTree) (path : Path) : Option Failure :=
  match tree.size path, tree.contents path with
  | .error f, _ => some f
  | .ok _, .error f => some f
  | .ok _, .ok _ => none

/-- A file can be read, or there is a reason why not. -/
theorem readable?_isSome_iff (tree : SourceTree) (path : Path) :
    (tree.readable? path).isSome ↔ tree.fault? path = none := by
  unfold readable? fault?
  cases tree.size path <;> cases tree.contents path <;> simp

theorem examine_toOption (tree : SourceTree) (path : Path) :
    (tree.examine path).toOption = tree.readable? path := by
  unfold readable? examine
  cases tree.size path <;> cases tree.contents path <;> rfl

theorem examine_eq_error_iff {tree : SourceTree} {path : Path} {f : Failure} :
    tree.examine path = .error f ↔ tree.fault? path = some f := by
  unfold fault? examine
  cases tree.size path <;> cases tree.contents path <;> simp [Bind.bind, Except.bind]

end SourceTree

/-! ## Names -/

/-- Sorting the names loses none and adds none. -/
theorem perm_sortNames (names : List Bytes) : (sortNames names).Perm names :=
  List.mergeSort_perm _ _

theorem sortNames_of_pairwise {names : List Bytes}
    (h : names.Pairwise fun a b => decide (a ≤ b) = true) : sortNames names = names :=
  List.mergeSort_of_pairwise h

theorem pairwise_sortNames (names : List Bytes) :
    (sortNames names).Pairwise fun a b => decide (a ≤ b) = true := by
  apply List.pairwise_mergeSort
  · intro a b c hab hbc
    simp only [decide_eq_true_eq] at hab hbc ⊢
    exact List.le_trans hab hbc
  · intro a b
    simpa using List.le_total a b

/-- Names have one order. -/
theorem sortNames_eq_of_perm {names sorted : List Bytes} (h : names.Perm sorted)
    (hsorted : sorted.Pairwise fun a b => decide (a ≤ b) = true) : sortNames names = sorted := by
  have hanti : ∀ a b : Bytes, a ∈ sortNames names → b ∈ sorted →
      decide (a ≤ b) = true → decide (b ≤ a) = true → a = b := by
    intro a b _ _ hab hba
    simp only [decide_eq_true_eq] at hab hba
    exact List.le_antisymm hab hba
  exact List.Perm.eq_of_pairwise hanti (pairwise_sortNames names) hsorted
    ((perm_sortNames names).trans h)

theorem sortNames_congr {names others : List Bytes} (h : names.Perm others) :
    sortNames names = sortNames others :=
  sortNames_eq_of_perm (h.trans (perm_sortNames others).symm) (pairwise_sortNames others)

theorem sortNames_filter (p : Bytes → Bool) (names : List Bytes) :
    sortNames (names.filter p) = (sortNames names).filter p :=
  sortNames_eq_of_perm ((perm_sortNames names).symm.filter p)
    ((pairwise_sortNames names).filter p)

theorem Selector.perm_files (s : Selector) (entries : List Entry) :
    (s.files entries).Perm ((entries.filter s.takes).map Entry.name) :=
  perm_sortNames _

/-! ## What a survey finds on a visit -/

section

variable (selector : Selector) (tree : SourceTree)

/-- The files that the selector takes, if the directory is expanded. -/
def takenAt (v : Visit) : List Entry :=
  match tree.standing v with
  | .expanded entries => entries.filter selector.takes
  | _ => []

/-- Those of them that can be read. -/
def readableAt (v : Visit) : List SourceFile :=
  (takenAt selector tree v).filterMap fun e => tree.readable? (v.dir.join e.name)

/-- A path that is left out. -/
def skipOf (path : Path) (f : Failure) : Skip := ⟨path, f.message⟩

/-- The files taken that cannot be read, in the order of their names. -/
def faultyAt (v : Visit) : List Skip :=
  match tree.standing v with
  | .expanded entries =>
    (selector.files entries).filterMap fun name =>
      (tree.fault? (v.dir.join name)).map (skipOf (v.dir.join name))
  | _ => []

/-- What is left out on the visit: the directory itself if it cannot be
listed, else those of its files that cannot be read. -/
def skipsAt (v : Visit) : List Skip :=
  match tree.standing v with
  | .unlisted f => [skipOf v.dir f]
  | .cycle => []
  | .expanded _ => faultyAt selector tree v

end

end KeywordSurvey
