import KeywordSurvey.Proofs.Exploration.Files
import KeywordSurvey.Proofs.Survey.Outcomes

/-!
# Trees that fail alike

Of a failure a run asks only whether it is about a single path. Two trees that
answer alike, but for the words of their failures, lead two runs step by step
through the same directories. Both come to an end or neither does, with the same
sums and the same paths left out, or with failures that are related
(`SourceTree.FailAlike.returns`).
-/

namespace KeywordSurvey

/-! ## Results that agree -/

/-- Two answers that are the same, or failures that are related. -/
inductive Answered {α : Type} (fails : Failure → Failure → Prop) :
    Except Failure α → Except Failure α → Prop
  | ok (a : α) : Answered fails (.ok a) (.ok a)
  | error {f g : Failure} : fails f g → Answered fails (.error f) (.error g)

/-- Two results that are related, or aborts for the same reason. -/
inductive Matched {α β : Type} (fails : Failure → Failure → Prop) (related : α → β → Prop) :
    Except Abort α → Except Abort β → Prop
  | ok {a : α} {b : β} : related a b → Matched fails related (.ok a) (.ok b)
  | overflow : Matched fails related (.error .overflow) (.error .overflow)
  | failure {f g : Failure} : fails f g →
      Matched fails related (.error (.failure f)) (.error (.failure g))

section

variable {α β γ δ : Type} {fails : Failure → Failure → Prop}

theorem Answered.bind {x y : Except Failure α} {k l : α → Except Failure β}
    (h : Answered fails x y) (hnext : ∀ a, Answered fails (k a) (l a)) :
    Answered fails (x >>= k) (y >>= l) := by
  cases h with
  | ok a => exact hnext a
  | error hfails => exact .error hfails

theorem Matched.bind {r : α → β → Prop} {s : γ → δ → Prop} {x : Except Abort α}
    {y : Except Abort β} {k : α → Except Abort γ} {l : β → Except Abort δ}
    (h : Matched fails r x y) (hnext : ∀ a b, r a b → Matched fails s (k a) (l b)) :
    Matched fails s (x >>= k) (y >>= l) := by
  cases h with
  | ok hr => exact hnext _ _ hr
  | overflow => exact .overflow
  | failure hfails => exact .failure hfails

theorem Matched.map {r : α → β → Prop} {s : γ → δ → Prop} {x : Except Abort α}
    {y : Except Abort β} {k : α → γ} {l : β → δ} (h : Matched fails r x y)
    (hnext : ∀ a b, r a b → s (k a) (l b)) : Matched fails s (x.map k) (y.map l) := by
  cases h with
  | ok hr => exact .ok (hnext _ _ hr)
  | overflow => exact .overflow
  | failure hfails => exact .failure hfails

theorem Matched.foldlM {r : α → β → Prop} {s : γ → δ → Prop} {k : γ → α → Except Abort γ}
    {l : δ → β → Except Abort δ}
    (hstep : ∀ c d a b, s c d → r a b → Matched fails s (k c a) (l d b)) {as : List α}
    {bs : List β} (h : List.Forall₂ r as bs) {c : γ} {d : δ} (hstart : s c d) :
    Matched fails s (as.foldlM k c) (bs.foldlM l d) := by
  induction h generalizing c d with
  | nil => exact .ok hstart
  | @cons a b as bs hr _ ih =>
    rw [List.foldlM_cons, List.foldlM_cons]
    exact (hstep c d a b hstart hr).bind fun _ _ hnext => ih hnext

theorem Matched.mapM_id {r : α → β → Prop} {xs : List (Except Abort α)}
    {ys : List (Except Abort β)} (h : List.Forall₂ (Matched fails r) xs ys) :
    Matched fails (List.Forall₂ r) (xs.mapM id) (ys.mapM id) := by
  induction h with
  | nil => exact .ok .nil
  | cons hxy _ ih =>
    rw [List.mapM_cons, List.mapM_cons]
    refine hxy.bind fun a b hab => ih.bind fun as bs habs => ?_
    exact .ok (.cons hab habs)

theorem map_eq_map_of_forall₂ {r : α → β → Prop} {k : α → γ} {l : β → γ} {as : List α}
    {bs : List β} (h : List.Forall₂ r as bs) (heq : ∀ a b, r a b → k a = l b) :
    as.map k = bs.map l := by
  induction h with
  | nil => rfl
  | cons hr _ ih => exact congrArg₂ List.cons (heq _ _ hr) ih

theorem rel_map {r : α → β → Prop} {s : γ → δ → Prop} {x : Option α} {y : Option β} {k : α → γ}
    {l : β → δ} (h : Option.Rel r x y) (hnext : ∀ a b, r a b → s (k a) (l b)) :
    Option.Rel s (x.map k) (y.map l) := by
  cases h with
  | none => exact .none
  | some hr => exact .some (hnext _ _ hr)

theorem exists_of_rel {r : α → β → Prop} {x : Option α} {y : Option β} (h : Option.Rel r x y) :
    (∀ a, x = some a → ∃ b, y = some b ∧ r a b) ∧
    (∀ b, y = some b → ∃ a, x = some a ∧ r a b) := by
  cases h with
  | none => exact ⟨nofun, nofun⟩
  | some hr =>
    constructor
    · rintro a ⟨⟩
      exact ⟨_, rfl, hr⟩
    · rintro b ⟨⟩
      exact ⟨_, rfl, hr⟩

theorem rel_mapM {r : β → γ → Prop} {k : α → Option β} {l : α → Option γ} {as : List α}
    (h : ∀ a ∈ as, Option.Rel r (k a) (l a)) :
    Option.Rel (List.Forall₂ r) (as.mapM k) (as.mapM l) := by
  induction as with
  | nil => exact .some .nil
  | cons a as ih =>
    have hfirst := h a List.mem_cons_self
    have hrest := ih fun a ha => h a (List.mem_cons_of_mem _ ha)
    rw [List.mapM_cons, List.mapM_cons]
    generalize k a = x, l a = y at hfirst ⊢
    generalize as.mapM k = xs, as.mapM l = ys at hrest ⊢
    cases hfirst with
    | none => exact .none
    | some hbc =>
      cases hrest with
      | none => exact .none
      | some hbcs => exact .some (.cons hbc hbcs)

/-! ## Siblings -/

theorem allResults_of_overflow {xs : List (Except Abort α)} (h : .error .overflow ∈ xs) :
    allResults xs = .error .overflow :=
  if_pos (List.any_eq_true.mpr ⟨_, h, rfl⟩)

theorem allResults_of_not_overflow {xs : List (Except Abort α)} (h : .error .overflow ∉ xs) :
    allResults xs = xs.mapM id := by
  refine if_neg fun hany => ?_
  obtain ⟨x, hx, hover⟩ := List.any_eq_true.mp hany
  split at hover
  · exact h hx
  · cases hover

theorem overflow_mem_iff {r : α → β → Prop} {xs : List (Except Abort α)}
    {ys : List (Except Abort β)} (h : List.Forall₂ (Matched fails r) xs ys) :
    .error .overflow ∈ xs ↔ .error .overflow ∈ ys := by
  induction h with
  | nil => simp
  | cons hxy _ ih =>
    rw [List.mem_cons, List.mem_cons, ih]
    cases hxy <;> simp

/-- Siblings that agree one by one agree together. -/
theorem Matched.allResults {r : α → β → Prop} {xs : List (Except Abort α)}
    {ys : List (Except Abort β)} (h : List.Forall₂ (Matched fails r) xs ys) :
    Matched fails (List.Forall₂ r) (allResults xs) (allResults ys) := by
  by_cases hover : .error .overflow ∈ xs
  · rw [allResults_of_overflow hover, allResults_of_overflow ((overflow_mem_iff h).mp hover)]
    exact .overflow
  · rw [allResults_of_not_overflow hover,
      allResults_of_not_overflow fun hy => hover ((overflow_mem_iff h).mpr hy)]
    exact .mapM_id h

end

/-! ## Trees that fail alike -/

/-- Of two failures that are related both or neither is about a single path. -/
def SameSort (fails : Path → Failure → Failure → Prop) : Prop :=
  ∀ path f g, fails path f g → f.isPathFailure = g.isPathFailure

/-- The trees answer alike, but for failures: these are related, path by path,
and of the same sort. -/
structure SourceTree.FailAlike (fails : Path → Failure → Failure → Prop)
    (tree other : SourceTree) : Prop where
  isDirectory : ∀ path, tree.isDirectory path = other.isDirectory path
  list : ∀ path, Answered (fails path) (tree.list path) (other.list path)
  identity : ∀ path, Answered (fails path) (tree.identity path) (other.identity path)
  contents : ∀ path, Answered (fails path) (tree.contents path) (other.contents path)
  size : ∀ path, Answered (fails path) (tree.size path) (other.size path)
  sameSort : SameSort fails

/-- The same path left out for failures that are related. -/
def Skip.Alike (fails : Path → Failure → Failure → Prop) (a b : Skip) : Prop :=
  ∃ f g, fails a.path f g ∧ a = skipOf a.path f ∧ b = skipOf a.path g

/-- The same file, read alike or with failures that are related. -/
structure ExaminedFile.Alike (fails : Path → Failure → Failure → Prop)
    (file other : ExaminedFile) : Prop where
  path : file.path = other.path
  outcome : Answered (fails file.path) file.outcome other.outcome

/-- The same report, and paths left out alike. -/
structure OwnAlike (fails : Path → Failure → Failure → Prop) (own other : Report × List Skip) :
    Prop where
  report : own.1 = other.1
  skipped : List.Forall₂ (Skip.Alike fails) own.2 other.2

/-- The same folder, and paths left out alike. -/
structure Survey.Alike (fails : Path → Failure → Failure → Prop) (s t : Survey) : Prop where
  root : s.root = t.root
  skipped : List.Forall₂ (Skip.Alike fails) s.skipped t.skipped

/-- Results for which `related` holds, or aborts for the same reason, at whatever
path. -/
abbrev MatchedAt {α : Type} (fails : Path → Failure → Failure → Prop) (related : α → α → Prop) :
    Except Abort α → Except Abort α → Prop :=
  Matched (fun f g => ∃ path, fails path f g) related

/-- Explorations that add up alike under a policy. -/
def Exploration.Alike (fails : Path → Failure → Failure → Prop) (policy : Policy)
    (e e' : Exploration) : Prop :=
  ∀ isRoot, MatchedAt fails (Survey.Alike fails) (e.survey policy isRoot)
    (e'.survey policy isRoot)

section

variable {fails : Path → Failure → Failure → Prop} {policy : Policy} {f g : Failure}
variable {path dir : Path}

/-! ## Sums of what was met -/

variable (hsort : SameSort fails)

include hsort

theorem Policy.tolerates_alike (policy : Policy) (hfails : fails path f g) :
    policy.tolerates f = policy.tolerates g := by
  rw [Policy.tolerates, Policy.tolerates, hsort path f g hfails]

theorem Policy.tolerate_alike (policy : Policy) (hfails : fails path f g) :
    MatchedAt fails (Skip.Alike fails) (policy.tolerate path f) (policy.tolerate path g) := by
  have hboth := policy.tolerates_alike hsort hfails
  cases htol : policy.tolerates f with
  | true =>
    rw [Policy.tolerate_of_tolerates htol, Policy.tolerate_of_tolerates (hboth.symm.trans htol)]
    exact .ok ⟨f, g, hfails, rfl, rfl⟩
  | false =>
    rw [Policy.tolerate_of_not_tolerates htol,
      Policy.tolerate_of_not_tolerates (hboth.symm.trans htol)]
    exact .failure ⟨path, hfails⟩

theorem Policy.gather_alike {own own' : Report × List Skip} {file file' : ExaminedFile}
    (hown : OwnAlike fails own own') (hfile : file.Alike fails file') :
    MatchedAt fails (OwnAlike fails) (policy.gather own file) (policy.gather own' file') := by
  obtain ⟨path, outcome⟩ := file
  obtain ⟨path', outcome'⟩ := file'
  obtain ⟨rfl, houtcome⟩ := hfile
  cases houtcome with
  | ok source =>
    rw [gather_read rfl, gather_read rfl, ← hown.report]
    cases own.1.take? source with
    | none => exact .overflow
    | some total => exact .ok ⟨rfl, hown.skipped⟩
  | error hfails =>
    rw [gather_faulty rfl, gather_faulty rfl]
    refine (policy.tolerate_alike hsort hfails).map fun a b hab => ⟨hown.report, ?_⟩
    exact List.rel_append hown.skipped (.cons hab .nil)

theorem Policy.gatherAll_alike (policy : Policy) {files files' : List ExaminedFile}
    (hfiles : List.Forall₂ (ExaminedFile.Alike fails) files files') :
    MatchedAt fails (OwnAlike fails) (policy.gatherAll files) (policy.gatherAll files') := by
  have hstart : OwnAlike fails (Report.empty, []) (Report.empty, []) := ⟨rfl, .nil⟩
  refine Matched.foldlM ?_ hfiles hstart
  intro own own' file file' hown hfile
  exact gather_alike hsort hown hfile

namespace Exploration

theorem alike_unlisted (hfails : fails dir f g) :
    Alike fails policy (.unlisted dir f) (.unlisted dir g) := by
  intro isRoot
  cases isRoot with
  | true => exact .failure ⟨dir, hfails⟩
  | false =>
    refine (policy.tolerate_alike hsort hfails).map fun a b hab => ⟨rfl, ?_⟩
    exact .cons hab .nil

omit hsort in
theorem combine_alike {own own' : Report × List Skip} {below below' : List Survey}
    (hown : OwnAlike fails own own') (hbelow : List.Forall₂ (Survey.Alike fails) below below') :
    MatchedAt fails (Survey.Alike fails) (combine dir own below) (combine dir own' below') := by
  have hroots : below.map Survey.root = below'.map Survey.root :=
    map_eq_map_of_forall₂ hbelow fun _ _ hs => hs.root
  have hskipped : List.Forall₂ (Skip.Alike fails) (own.2 ++ below.flatMap Survey.skipped)
      (own'.2 ++ below'.flatMap Survey.skipped) :=
    List.rel_append hown.skipped (List.rel_flatMap hbelow fun _ _ hs => hs.skipped)
  rw [combine, combine, ← hroots, ← hown.report]
  cases Folder.assemble? dir own.1 (below.map Survey.root) with
  | none => exact .overflow
  | some folder => exact .ok ⟨rfl, hskipped⟩

/-- A directory adds up alike if its files and its subdirectories do. -/
theorem alike_expanded {identity : Path} {files files' : List ExaminedFile}
    {subdirs subdirs' : List Exploration}
    (hfiles : List.Forall₂ (ExaminedFile.Alike fails) files files')
    (hsubdirs : List.Forall₂ (Alike fails policy) subdirs subdirs') :
    Alike fails policy (.expanded dir identity files subdirs)
      (.expanded dir identity files' subdirs') := by
  intro isRoot
  rw [survey, survey, surveys_eq_map, surveys_eq_map]
  refine (policy.gatherAll_alike hsort hfiles).bind fun own own' hown => ?_
  have hresults : List.Forall₂ (MatchedAt fails (Survey.Alike fails))
      (subdirs.map (survey policy false)) (subdirs'.map (survey policy false)) := by
    rw [List.forall₂_map_left_iff, List.forall₂_map_right_iff]
    exact hsubdirs.imp fun _ _ h => h false
  exact (Matched.allResults hresults).bind fun _ _ hbelow => combine_alike hown hbelow

end Exploration

end

/-! ## Runs over both trees -/

section

variable {fails : Path → Failure → Failure → Prop} {tree other : SourceTree}

namespace SourceTree.FailAlike

variable (h : tree.FailAlike fails other)

include h

theorem examine (path : Path) : Answered (fails path) (tree.examine path) (other.examine path) :=
  (h.size path).bind fun _ => (h.contents path).bind fun _ => .ok _

theorem examineAll (plan : Plan) (dir : Path) (entries : List Entry) :
    List.Forall₂ (ExaminedFile.Alike fails) (plan.examineAll tree dir entries)
      (plan.examineAll other dir entries) := by
  unfold Plan.examineAll
  rw [List.forall₂_map_left_iff, List.forall₂_map_right_iff, List.forall₂_same]
  exact fun name _ => ⟨rfl, h.examine (dir.join name)⟩

/-- **What is met in the one tree is met in the other.** -/
theorem explore (plan : Plan) (levels : Nat) (lineage : List Path) (dir : Path) :
    Option.Rel (Exploration.Alike fails plan.policy) (plan.explore tree levels lineage dir)
      (plan.explore other levels lineage dir) := by
  induction levels generalizing lineage dir with
  | zero => exact .none
  | succ levels ih =>
    have hidentity := h.identity dir
    have hlist := h.list dir
    rw [Plan.explore, Plan.explore]
    generalize tree.identity dir = x, other.identity dir = x' at hidentity ⊢
    cases hidentity with
    | error hfails => exact .some (Exploration.alike_unlisted h.sameSort hfails)
    | ok identity =>
      dsimp only
      split
      · exact .some fun _ => .ok ⟨rfl, .nil⟩
      generalize tree.list dir = y, other.list dir = y' at hlist ⊢
      cases hlist with
      | error hfails => exact .some (Exploration.alike_unlisted h.sameSort hfails)
      | ok entries =>
        have hfiles := h.examineAll plan dir entries
        have hown := plan.policy.gatherAll_alike h.sameSort hfiles
        dsimp only
        generalize plan.policy.gatherAll (plan.examineAll tree dir entries) = own,
          plan.policy.gatherAll (plan.examineAll other dir entries) = own' at hown ⊢
        have hempty : Exploration.Alike fails plan.policy (.expanded dir identity _ [])
            (.expanded dir identity _ []) := Exploration.alike_expanded h.sameSort hfiles .nil
        cases hown with
        | overflow => exact .some hempty
        | failure => exact .some hempty
        | ok =>
          -- only now the subdirectories are looked at
          have hsubdirs := rel_mapM fun name (_ : name ∈ subdirectories entries) =>
            ih (identity :: lineage) (dir.join name)
          exact rel_map hsubdirs fun _ _ hsubs =>
            Exploration.alike_expanded h.sameSort hfiles hsubs

/-- **Runs over trees that fail alike.** With any number of levels the one has an
outcome if the other has, and then the outcomes match. -/
theorem run? (plan : Plan) {root : Path} (hroot : tree.isDirectory root = true) (levels : Nat) :
    Option.Rel (MatchedAt fails (Survey.Alike fails)) (plan.run? tree levels root)
      (plan.run? other levels root) := by
  rw [Plan.run?, Plan.run?, ← h.isDirectory, if_pos hroot, if_pos hroot]
  exact rel_map (h.explore plan levels [] root) fun _ _ halike => halike true

theorem returns (plan : Plan) {root : Path} (hroot : tree.isDirectory root = true) :
    (∀ x, plan.Returns tree root x →
      ∃ y, plan.Returns other root y ∧ MatchedAt fails (Survey.Alike fails) x y) ∧
    (∀ y, plan.Returns other root y →
      ∃ x, plan.Returns tree root x ∧ MatchedAt fails (Survey.Alike fails) x y) := by
  constructor
  · rintro x ⟨levels, hx⟩
    obtain ⟨y, hy, hmatched⟩ := (exists_of_rel (h.run? plan hroot levels)).1 x hx
    exact ⟨y, ⟨levels, hy⟩, hmatched⟩
  · rintro y ⟨levels, hy⟩
    obtain ⟨x, hx, hmatched⟩ := (exists_of_rel (h.run? plan hroot levels)).2 y hy
    exact ⟨x, ⟨levels, hx⟩, hmatched⟩

end SourceTree.FailAlike

end

end KeywordSurvey
