import KeywordSurvey.Proofs.Exploration.Files
import KeywordSurvey.Proofs.Survey.Outcomes

/-!
# The failure of a run

A run that fails does so with the first fatal failure on its way
(`returns_failure_iff`). The way is said by the answers of the tree alone: a
directory is listed before its files are read, its files are read before any
of its subdirectories is entered, and each subdirectory is done with before
the next one (`Plan.FirstFatal`). Over a walk that can be written down, this
is the first element of the list of all fatal failures (`FirstFatal.of_walk`).
-/

namespace KeywordSurvey

/-- If a list is cut at two places, then at the same one, or one cut comes
before the other. -/
theorem eq_or_mem_of_append_cons {α : Type} {before after before' after' : List α} {a a' : α}
    (h : before ++ a :: after = before' ++ a' :: after') :
    a = a' ∨ a ∈ before' ∨ a' ∈ before := by
  rcases List.append_eq_append_iff.mp h with ⟨between, rfl, hcut⟩ | ⟨between, rfl, hcut⟩
  · cases between with
    | nil => exact .inl (List.cons.inj hcut).1
    | cons b between => exact .inr (.inl (by simp [(List.cons.inj hcut).1]))
  · cases between with
    | nil => exact .inl (List.cons.inj hcut).1.symm
    | cons b between => exact .inr (.inr (by simp [(List.cons.inj hcut).1]))

/-! ## Fatal failures -/

/-- The subdirectories that are visited next. -/
def SourceTree.subdirectoriesAt (tree : SourceTree) (v : Visit) : List Bytes :=
  match tree.standing v with
  | .expanded entries => subdirectories entries
  | _ => []

namespace Plan

/-- The fatal failures of one visit in their order: that the directory cannot
be listed, or that files of it cannot be read. The top has to be listed under
any policy. -/
def fatalAt (plan : Plan) (tree : SourceTree) (v : Visit) : List Failure :=
  match tree.standing v with
  | .unlisted f => if v.above = [] ∨ plan.policy.tolerates f = false then [f] else []
  | .cycle => []
  | .expanded entries =>
    ((plan.selector.files entries).filterMap fun name => tree.fault? (v.dir.join name)).filter
      fun f => !plan.policy.tolerates f

/-- The first fatal failure on a visit or below it, or that there is none. -/
inductive FirstFatal (plan : Plan) (tree : SourceTree) : Visit → Option Failure → Prop
  | here {v : Visit} {f : Failure} :
      (plan.fatalAt tree v).head? = some f → FirstFatal plan tree v (some f)
  | deeper {v : Visit} {f : Failure} {before after : List Bytes} {name : Bytes} :
      plan.fatalAt tree v = [] →
      tree.subdirectoriesAt v = before ++ name :: after →
      (∀ earlier ∈ before, FirstFatal plan tree (v.child earlier) none) →
      FirstFatal plan tree (v.child name) (some f) →
      FirstFatal plan tree v (some f)
  | clear {v : Visit} :
      plan.fatalAt tree v = [] →
      (∀ name ∈ tree.subdirectoriesAt v, FirstFatal plan tree (v.child name) none) →
      FirstFatal plan tree v none

namespace FirstFatal

variable {plan : Plan} {tree : SourceTree} {v : Visit} {r r' : Option Failure}

/-- **No other failure takes its place.** -/
theorem unique (h : plan.FirstFatal tree v r) (h' : plan.FirstFatal tree v r') : r = r' := by
  induction h generalizing r' with
  | here hhead =>
    cases h' with
    | here hhead' => rw [← hhead, ← hhead']
    | deeper hnone | clear hnone => simp [hnone] at hhead
  | @deeper v f before after name hnone hnames _ _ ihbefore ih =>
    cases h' with
    | here hhead => simp [hnone] at hhead
    | clear _ hclear => exact ih (hclear name (by simp [hnames]))
    | @deeper _ _ before' after' name' _ hnames' hbefore' hfatal' =>
      -- neither of the two subdirectories can come before the other
      rcases eq_or_mem_of_append_cons (hnames.symm.trans hnames') with rfl | hname | hname
      · exact ih hfatal'
      · cases ih (hbefore' name hname)
      · cases ihbefore name' hname hfatal'
  | @clear v hnone _ ih =>
    cases h' with
    | here hhead => simp [hnone] at hhead
    | clear => rfl
    | @deeper _ _ _ _ name _ hnames _ hfatal => exact ih name (by simp [hnames]) hfatal

/-- Over a walk, it is the first of all fatal failures. -/
theorem of_walk {visits : List Visit} (h : tree.Walk v visits) :
    plan.FirstFatal tree v (visits.flatMap (plan.fatalAt tree)).head? := by
  induction h with
  | @closed v hclosed =>
    have hnames : tree.subdirectoriesAt v = [] := by
      unfold SourceTree.subdirectoriesAt
      cases hv : tree.standing v <;> simp [hv] at hclosed ⊢
    rw [List.flatMap_singleton]
    cases hhead : (plan.fatalAt tree v).head? with
    | some f => exact .here hhead
    | none => exact .clear (List.head?_eq_none_iff.mp hhead) (by simp [hnames])
  | @expanded v entries below hv hbelow _ ih =>
    have hnames : tree.subdirectoriesAt v = below.map Prod.fst := by
      rw [SourceTree.subdirectoriesAt, hv, hbelow]
    rw [List.flatMap_cons, List.flatMap_assoc, List.head?_append, List.head?_flatMap]
    cases hhead : (plan.fatalAt tree v).head? with
    | some f => exact .here hhead
    | none =>
      have hnone := List.head?_eq_none_iff.mp hhead
      rw [Option.none_or]
      cases hfirst : below.findSome? fun b => (b.2.flatMap (plan.fatalAt tree)).head? with
      | none =>
        refine .clear hnone fun name hname => ?_
        rw [hnames] at hname
        obtain ⟨b, hb, rfl⟩ := List.mem_map.mp hname
        have hclear := ih b hb
        rwa [List.findSome?_eq_none_iff.mp hfirst b hb] at hclear
      | some f =>
        obtain ⟨before, b, after, hsplit, hb, hbefore⟩ := List.findSome?_eq_some_iff.mp hfirst
        rw [hsplit, List.map_append, List.map_cons] at hnames
        refine .deeper hnone hnames (fun name hname => ?_) ?_
        · obtain ⟨c, hc, rfl⟩ := List.mem_map.mp hname
          have hclear := ih c (by simp [hsplit, hc])
          rwa [hbefore c hc] at hclear
        · have hfatal := ih b (by simp [hsplit])
          rwa [hb] at hfatal

end FirstFatal

/-! ## Runs on their way -/

section

variable {plan : Plan} {tree : SourceTree} {v : Visit} {entries : List Entry}

/-- The fatal failures of a directory that is listed are those of its files. -/
theorem fatalAt_expanded (hv : tree.standing v = .expanded entries) :
    plan.fatalAt tree v
      = ((plan.examineAll tree v.dir entries).filterMap ExaminedFile.fault?).filter
          fun f => !plan.policy.tolerates f := by
  simp only [fatalAt, hv, filterMap_fault?_examineAll]

/-- Files that come through have no fatal failure. -/
theorem fatalAt_eq_nil {own : Report × List Skip} (hv : tree.standing v = .expanded entries)
    (hown : plan.policy.gatherAll (plan.examineAll tree v.dir entries) = .ok own) :
    plan.fatalAt tree v = [] := by
  rw [fatalAt_expanded hv, List.filter_eq_nil_iff]
  intro f hf
  simp [(Policy.gatherAll_eq_ok_iff.mp hown).2.1 f hf]

theorem subdirectoriesAt_expanded (hv : tree.standing v = .expanded entries) :
    tree.subdirectoriesAt v = subdirectories entries := by
  rw [SourceTree.subdirectoriesAt, hv]

/-- A survey that is yielded has met no fatal failure. -/
theorem Yields.firstFatal {s : Survey} (h : plan.Yields tree v s) :
    plan.FirstFatal tree v none := by
  induction h with
  | cycle hv => exact .clear (by rw [fatalAt, hv]) (by simp [SourceTree.subdirectoriesAt, hv])
  | @unlisted v f skipped hv hroot htol =>
    obtain ⟨hpolicy, hpath, -⟩ := Policy.tolerate_eq_ok_iff.mp htol
    refine .clear ?_ (by simp [SourceTree.subdirectoriesAt, hv])
    simp [fatalAt, hv, hroot, hpolicy, hpath]
  | @expanded v entries own below s hv hown hnames _ _ ih =>
    refine .clear (fatalAt_eq_nil hv hown) fun name hname => ?_
    rw [subdirectoriesAt_expanded hv, ← hnames] at hname
    obtain ⟨b, hb, rfl⟩ := List.mem_map.mp hname
    exact ih b hb

/-- An exploration that adds up to a failure has met it first. -/
theorem firstFatal_of_explore {levels : Nat} :
    ∀ {v : Visit} {e : Exploration} {f : Failure},
      plan.explore tree levels (tree.lineage v.above) v.dir = some e →
      e.survey plan.policy v.above.isEmpty = .error (.failure f) →
      plan.FirstFatal tree v (some f) := by
  induction levels with
  | zero =>
    intro v e f h
    cases h
  | succ levels ih =>
    intro v e f h hs
    obtain ⟨identity, hstep⟩ := explore_succ plan tree v
    rw [hstep] at h
    cases hv : tree.standing v with
    | cycle =>
      rw [hv] at h
      cases h
      cases hs
    | unlisted g =>
      rw [hv] at h
      cases h
      apply FirstFatal.here
      obtain ⟨rfl, hfatal⟩ := Exploration.unlistedSurvey_eq_failure hs
      have hfatal : v.above = [] ∨ plan.policy.tolerates g = false := by simpa using hfatal
      simp [fatalAt, hv, hfatal]
    | expanded entries =>
      simp only [hv] at h
      cases hown : plan.policy.gatherAll (plan.examineAll tree v.dir entries) with
      | error abort =>
        simp only [hown, Option.some.injEq] at h
        subst h
        apply FirstFatal.here
        rw [Exploration.survey, hown] at hs
        cases hs
        rw [fatalAt_expanded hv, List.head?_filter]
        exact Policy.gatherAll_eq_failure hown
      | ok own =>
        simp only [hown, Option.map_eq_some_iff, mapM_eq_some_iff] at h
        obtain ⟨subdirs, hsubdirs, rfl⟩ := h
        obtain ⟨pairs, hfst, hsnd, hpairs⟩ := exists_pairs hsubdirs
        rcases Exploration.survey_expanded_eq_failure hs with hs | ⟨before, e, after, hsplit, hs⟩
        · simp [hown] at hs
        obtain ⟨hbefore, he⟩ := hs
        -- the names split where the explorations do
        rw [← hsnd, List.map_eq_append_iff] at hsplit
        obtain ⟨first, rest, hsplit, rfl, hrest⟩ := hsplit
        obtain ⟨p, last, rfl, rfl, -⟩ := List.map_eq_cons_iff.mp hrest
        have hnames : tree.subdirectoriesAt v
            = first.map Prod.fst ++ p.1 :: last.map Prod.fst := by
          rw [subdirectoriesAt_expanded hv, ← hfst, hsplit, List.map_append, List.map_cons]
        refine .deeper (fatalAt_eq_nil hv hown) hnames (fun name hname => ?_) ?_
        · obtain ⟨q, hq, rfl⟩ := List.mem_map.mp hname
          obtain ⟨s, hq'⟩ := hbefore q.2 (List.mem_map_of_mem hq)
          exact (yields_of_explore (hpairs q (by simp [hsplit, hq])) hq').firstFatal
        · exact ih (hpairs p (by simp [hsplit])) he

end

/-! ## The law -/

theorem firstFatal_of_returns {plan : Plan} {tree : SourceTree} {root : Path} {f : Failure}
    (hroot : tree.isDirectory root = true)
    (h : plan.Returns tree root (.error (.failure f))) :
    plan.FirstFatal tree (Visit.top root) (some f) := by
  obtain ⟨levels, h⟩ := h
  rw [run?, if_pos hroot] at h
  obtain ⟨e, he, hs⟩ := Option.map_eq_some_iff.mp h
  exact firstFatal_of_explore he hs

theorem run?_of_not_directory {plan : Plan} {tree : SourceTree} {root : Path}
    (hroot : tree.isDirectory root = false) (levels : Nat) :
    plan.run? tree levels root = some (.error (noRoot root)) :=
  if_neg (by simp [hroot])

/-- **A run fails with the first fatal failure on its way.** If no sum
overflows, a run returns a failure exactly if its root is no directory, which
is the failure then and no other answer counts, or if it returns and there is
a fatal failure on its way, and then it is the first one. Where no way down is
endless a run does return, and the first fatal failure is the first in the
list of those of its walk. -/
theorem returns_failure_iff {plan : Plan} {tree : SourceTree} {root : Path}
    (hfits : ¬ plan.Returns tree root (.error .overflow)) :
    (∀ f, plan.Returns tree root (.error (.failure f)) ↔
      (tree.isDirectory root = false ∧ f = .of (.invalidPath root)) ∨
      (tree.isDirectory root = true ∧ plan.FirstFatal tree (Visit.top root) (some f) ∧
        ∃ outcome, plan.Returns tree root outcome)) ∧
    (tree.isDirectory root = false →
      ∀ levels, plan.run? tree levels root = some (.error (noRoot root))) ∧
    (Acc tree.Calls (Visit.top root) →
      (∃ outcome, plan.Returns tree root outcome) ∧
      ∃ visits, tree.Walk (Visit.top root) visits ∧
        ∀ r, plan.FirstFatal tree (Visit.top root) r ↔
          r = (visits.flatMap (plan.fatalAt tree)).head?) := by
  refine ⟨fun f => ⟨fun h => ?_, fun h => ?_⟩, run?_of_not_directory, fun hacc => ?_⟩
  · cases hroot : tree.isDirectory root with
    | true => exact .inr ⟨rfl, firstFatal_of_returns hroot h, _, h⟩
    | false =>
      have hnone : plan.Returns tree root (.error (noRoot root)) :=
        ⟨0, run?_of_not_directory hroot 0⟩
      cases h.unique hnone
      exact .inl ⟨rfl, rfl⟩
  · rcases h with ⟨hroot, rfl⟩ | ⟨hroot, hfirst, outcome, hreturns⟩
    · exact ⟨0, run?_of_not_directory hroot 0⟩
    · -- a survey or another failure would be met by the same walk
      match outcome, hreturns with
      | .ok s, hreturns =>
        cases hfirst.unique (returns_ok_iff.mp hreturns).2.firstFatal
      | .error .overflow, hreturns => exact absurd hreturns hfits
      | .error (.failure g), hreturns =>
        cases hfirst.unique (firstFatal_of_returns hroot hreturns)
        exact hreturns
  · obtain ⟨visits, hwalk⟩ := SourceTree.exists_walk hacc
    refine ⟨plan.exists_returns hacc, visits, hwalk, fun r => ⟨fun h => ?_, ?_⟩⟩
    · exact h.unique (.of_walk hwalk)
    · rintro rfl
      exact .of_walk hwalk

/-! ## The small tree again -/

section

open MemoryTree

/-- The severe plan ends at the file of the small tree that cannot be read. -/
theorem severe_returns_linked :
    severe.Returns linked.answers (.ofString "r")
      (.error (.failure (noFile (.ofString "r/x.j")))) := by
  have hnames : lenient.selector.files
      [⟨Utf8.ofString "a", .directory⟩, ⟨Utf8.ofString "b", .directory⟩,
        ⟨Utf8.ofString "x.j", .file⟩, ⟨Utf8.ofString "y.j", .file⟩]
      = [Utf8.ofString "x.j", Utf8.ofString "y.j"] := sortNames_of_pairwise (by decide)
  obtain ⟨identity, hstep⟩ := explore_succ severe linked.answers (Visit.top (.ofString "r"))
  have he := hstep 0
  rw [show linked.answers.standing (Visit.top (.ofString "r")) = .expanded _ from rfl] at he
  simp only [examineAll, severe, hnames] at he
  exact ⟨1, congrArg (Option.map (Exploration.survey .strict true)) he⟩

theorem returns_failure_iff_linked :
    ¬ severe.Returns linked.answers (.ofString "r") (.error .overflow) ∧
      severe.FirstFatal linked.answers (Visit.top (.ofString "r"))
        (some (noFile (.ofString "r/x.j"))) ∧
      ∃ visits, linked.answers.Walk (Visit.top (.ofString "r")) visits ∧
        (visits.flatMap (severe.fatalAt linked.answers)).head?
          = some (noFile (.ofString "r/x.j")) := by
  have hfits : ¬ severe.Returns linked.answers (.ofString "r") (.error .overflow) :=
    fun hover => by cases severe_returns_linked.unique hover
  obtain ⟨hiff, -, hends⟩ := returns_failure_iff hfits
  obtain ⟨-, visits, hwalk, hhead⟩ := hends (linked.bounded.calls_wf.apply _)
  rcases (hiff _).mp severe_returns_linked with ⟨hroot, -⟩ | ⟨-, hfirst, -⟩
  · cases hroot
  · exact ⟨hfits, hfirst, visits, hwalk, ((hhead _).mp hfirst).symm⟩

end

end Plan

end KeywordSurvey
