import KeywordSurvey.Proofs.Report.Fits
import KeywordSurvey.Proofs.Survey.Aggregation
import KeywordSurvey.Proofs.Survey.FirstFailure

/-!
# When a run overflows

A run without a fatal failure ends in an overflow exactly if the totals of all
files it can read do not fit in 64 bits (`Plan.returns_overflow_iff`). They
are added up in many places: file by file, child by child, own files and
children. Each of these sums is a part of the totals of the root, so none of
them overflows unless those do, and none of them can hide that those do.
-/

namespace KeywordSurvey

/-- The totals of all files that can be read on some visits. -/
def totalsOver (selector : Selector) (tree : SourceTree) (visits : List Visit) : Totals :=
  Totals.sum ((visits.flatMap (readableAt selector tree)).map Totals.ofFile)

theorem totalsOver_cons (selector : Selector) (tree : SourceTree) (v : Visit)
    (visits : List Visit) :
    totalsOver selector tree (v :: visits)
      = Totals.sum ((readableAt selector tree v).map Totals.ofFile)
        + totalsOver selector tree visits := by
  rw [totalsOver, List.flatMap_cons, List.map_append, Totals.sum_append, totalsOver]

theorem totalsOver_flatMap {α : Type} (selector : Selector) (tree : SourceTree)
    (f : α → List Visit) (l : List α) :
    totalsOver selector tree (l.flatMap f)
      = Totals.sum (l.map fun a => totalsOver selector tree (f a)) := by
  rw [totalsOver, List.flatMap_assoc, Totals.sum_flatMap]
  rfl

/-- A directory that is not expanded adds nothing. -/
theorem readableAt_of_not_expanded {selector : Selector} {tree : SourceTree} {v : Visit}
    (h : (tree.standing v).isExpanded = false) : readableAt selector tree v = [] := by
  unfold readableAt takenAt
  cases hv : tree.standing v <;> simp [hv] at h ⊢

namespace Plan

variable {plan : Plan} {tree : SourceTree} {v : Visit} {entries : List Entry}

/-- Where no fatal failure is met, no way down is endless. -/
theorem FirstFatal.acc {r : Option Failure} (h : plan.FirstFatal tree v r) (hr : r = none) :
    Acc tree.Calls v := by
  induction h with
  | here | deeper => cases hr
  | @clear v _ _ ih =>
    refine Acc.intro v fun child hcall => ?_
    cases hcall with
    | @subdirectory _ entries name hv hname =>
      exact ih name (by rwa [subdirectoriesAt_expanded hv]) rfl

/-! ## Sums that fit -/

/-- The files of a directory come through if none of their failures is fatal
and what they add up to fits. -/
theorem exists_gatherAll (hv : tree.standing v = .expanded entries)
    (hclear : plan.fatalAt tree v = [])
    (hfits : (Totals.sum ((readableAt plan.selector tree v).map Totals.ofFile)).Fits) :
    ∃ own, plan.policy.gatherAll (plan.examineAll tree v.dir entries) = .ok own := by
  have hsum := Totals.sum_perm ((plan.perm_examineAll hv).map Totals.ofFile)
  obtain ⟨report, hreport⟩ := Report.exists_exact hfits
  refine ⟨(report, _), Policy.gatherAll_eq_ok_iff.mpr ⟨?_, fun f hf => ?_, rfl⟩⟩
  · rw [Report.foldlM_eq_some_iff @Report.take?_eq_some_iff, Report.exact_empty, zero_add, hsum,
      hreport]
  · rw [fatalAt_expanded hv, List.filter_eq_nil_iff] at hclear
    simpa using hclear f hf

/-- The sums of a directory that was expanded, each of them there. -/
theorem Yields.sums {s : Survey} (h : plan.Yields tree v s)
    (hv : tree.standing v = .expanded entries) :
    ∃ own below,
      plan.policy.gatherAll (plan.examineAll tree v.dir entries) = .ok own ∧
      Report.sum? (s.root.children.map Folder.report) = some below ∧
      own.1.add? below = some s.root.report := by
  cases h with
  | cycle hv' | unlisted hv' => simp [hv] at hv'
  | @expanded _ _ own below _ hv' hown _ _ hs =>
    obtain rfl := Standing.expanded.inj (hv.symm.trans hv')
    obtain ⟨hfolder, -⟩ := Exploration.combine_eq_ok_iff.mp hs
    obtain ⟨sum, total, hsum, htotal, hroot⟩ := Folder.assemble?_eq_some_iff.mp hfolder
    rw [hroot]
    exact ⟨own, sum, hown, hsum, htotal⟩

/-- A directory has a folder if the totals of its own files and of its children
fit together. -/
theorem exists_combine (dir : Path) {own : Report × List Skip} {below : List Survey}
    (hfits : (own.1.exact + Totals.sum (below.map fun b => b.root.report.exact)).Fits) :
    ∃ s, Exploration.combine dir own below = .ok s := by
  obtain ⟨sum, hsum⟩ := Report.exists_exact hfits.of_add.2
  obtain ⟨total, htotal⟩ := Report.exists_exact hfits
  refine ⟨⟨.mk dir total (below.map Survey.root), _⟩,
    Exploration.combine_eq_ok_iff.mpr ⟨?_, rfl⟩⟩
  refine Folder.assemble?_eq_some_iff.mpr ⟨sum, total, ?_, ?_, rfl⟩
  · rw [Report.sum?_eq_some_iff, hsum, List.map_map, List.map_map]
    rfl
  · rw [Report.add?_eq_some_iff, htotal, hsum]

/-- **A walk without fatal failures has a survey if its totals fit**, and they
are its totals. -/
theorem exists_yields {visits : List Visit} (h : tree.Walk v visits)
    (hclear : ∀ w ∈ visits, plan.fatalAt tree w = [])
    (hfits : (totalsOver plan.selector tree visits).Fits) :
    ∃ s, plan.Yields tree v s ∧
      s.root.report.exact = totalsOver plan.selector tree visits := by
  induction h with
  | @closed v hclosed =>
    have hnothing : totalsOver plan.selector tree [v] = 0 := by
      rw [totalsOver_cons, readableAt_of_not_expanded hclosed]
      rfl
    have hclear := hclear v List.mem_cons_self
    cases hv : tree.standing v with
    | cycle => exact ⟨_, .cycle hv, hnothing.symm⟩
    | unlisted f =>
      simp only [fatalAt, hv, ite_eq_right_iff, List.cons_ne_nil, imp_false, not_or,
        Bool.not_eq_false] at hclear
      exact ⟨_, .unlisted hv hclear.1 (Policy.tolerate_of_tolerates hclear.2 v.dir),
        hnothing.symm⟩
    | expanded entries => simp [hv] at hclosed
  | @expanded v entries below hv hnames _ ih =>
    rw [totalsOver_cons, totalsOver_flatMap] at hfits ⊢
    obtain ⟨own, hown⟩ :=
      exists_gatherAll hv (hclear v List.mem_cons_self) hfits.of_add.1
    -- what lies below each child fits, being a part of the whole
    have hchildren : ∀ b ∈ below, ∃ s, plan.Yields tree (v.child b.1) s ∧
        s.root.report.exact = totalsOver plan.selector tree b.2 := fun b hb =>
      ih b hb (fun w hw => hclear w (List.mem_cons_of_mem v (List.mem_flatMap.mpr ⟨b, hb, hw⟩)))
        (hfits.of_add.2.of_sum (List.mem_map_of_mem hb))
    have : Nonempty Survey := ⟨⟨Folder.leaf v.dir, []⟩⟩
    choose! survey hyields hexact using hchildren
    have hbelow : (below.map survey).map (fun b => b.root.report.exact)
        = below.map fun b => totalsOver plan.selector tree b.2 := by
      rw [List.map_map]
      exact List.map_congr_left hexact
    have htotals := Policy.exact_of_gatherAll hown
    rw [Totals.sum_perm ((plan.perm_examineAll hv).map Totals.ofFile)] at htotals
    rw [← htotals, ← hbelow] at hfits ⊢
    obtain ⟨s, hs⟩ := exists_combine v.dir hfits
    refine ⟨s, ?_, (Exploration.combine_eq_ok hs).2.2.1⟩
    refine @Yields.expanded _ _ v entries own (below.map fun b => (b.1, survey b)) s hv hown ?_
      (fun c hc => ?_) ?_
    · rw [List.map_map]
      exact hnames
    · obtain ⟨b, hb, rfl⟩ := List.mem_map.mp hc
      exact hyields b hb
    · rw [List.map_map]
      exact hs

/-! ## The law -/

/-- **When a run overflows.** If the root is a directory and no fatal failure
is met, then a run ends in an overflow exactly if one of the six totals of all
files that can be read on its walk is 2^64 or more. Otherwise it returns a
survey with these totals, and each sum on the way to it was there and exact:
the own files of every directory, the reports of its children, and the two
together. -/
theorem returns_overflow_iff {root : Path} (hroot : tree.isDirectory root = true)
    (hclear : plan.FirstFatal tree (Visit.top root) none) :
    ∃ visits, tree.Walk (Visit.top root) visits ∧
      (plan.Returns tree root (.error .overflow) ↔
        Count.limit ≤ (totalsOver plan.selector tree visits).size ∨
        (∃ k, Count.limit ≤ (totalsOver plan.selector tree visits).tally.get k) ∨
        Count.limit ≤ (totalsOver plan.selector tree visits).files) ∧
      (¬ plan.Returns tree root (.error .overflow) →
        ∃ s, plan.Returns tree root (.ok s) ∧
          s.root.report.exact = totalsOver plan.selector tree visits ∧
          ∀ n ∈ s.root.nodes [], ∀ entries, tree.standing n.1 = .expanded entries →
            ∃ own below,
              plan.policy.gatherAll (plan.examineAll tree n.1.dir entries) = .ok own ∧
              own.1.exact
                = Totals.sum ((readableAt plan.selector tree n.1).map Totals.ofFile) ∧
              Report.sum? (n.2.children.map Folder.report) = some below ∧
              below.exact = Totals.sum (n.2.children.map fun c => c.report.exact) ∧
              own.1.add? below = some n.2.report ∧
              n.2.report.exact = own.1.exact + below.exact) := by
  obtain ⟨visits, hwalk⟩ := SourceTree.exists_walk (hclear.acc rfl)
  have hfatal : ∀ w ∈ visits, plan.fatalAt tree w = [] := by
    have hhead := hclear.unique (.of_walk hwalk)
    exact List.flatMap_eq_nil_iff.mp (List.head?_eq_none_iff.mp hhead.symm)
  have hsurvey : (totalsOver plan.selector tree visits).Fits →
      ∃ s, plan.Returns tree root (.ok s) := fun hfits => by
    obtain ⟨s, hs, -⟩ := exists_yields hwalk hfatal hfits
    exact ⟨s, returns_ok_iff.mpr ⟨hroot, hs⟩⟩
  have htotals : ∀ {s}, plan.Returns tree root (.ok s) →
      s.root.report.exact = totalsOver plan.selector tree visits := fun hs => by
    have hyields := (returns_ok_iff.mp hs).2
    rw [hyields.report_flat, hyields.walk.unique hwalk, totalsOver]
  have hoverflow : plan.Returns tree root (.error .overflow) ↔
      ¬ (totalsOver plan.selector tree visits).Fits := by
    constructor
    · intro hover hfits
      obtain ⟨s, hs⟩ := hsurvey hfits
      cases hover.unique hs
    · intro hfits
      obtain ⟨outcome, houtcome⟩ := plan.exists_returns (hclear.acc rfl)
      match outcome, houtcome with
      | .error .overflow, hover => exact hover
      | .error (.failure f), hfailure =>
        cases hclear.unique (firstFatal_of_returns hroot hfailure)
      | .ok s, hs => exact absurd (htotals hs ▸ s.root.report.fits_exact) hfits
  refine ⟨visits, hwalk, hoverflow.trans Totals.not_fits_iff, fun hfits => ?_⟩
  obtain ⟨s, hs⟩ := hsurvey (not_not.mp (mt hoverflow.mpr hfits))
  refine ⟨s, hs, htotals hs, fun n hn entries hv => ?_⟩
  obtain ⟨t, ht, hnode, -⟩ := (returns_ok_iff.mp hs).2.of_mem_nodes n hn
  obtain ⟨own, below, hown, hbelow, htotal⟩ := ht.sums hv
  rw [hnode] at hbelow htotal
  refine ⟨own, below, hown, ?_, hbelow, ?_, htotal, Report.add?_eq_some_iff.mp htotal⟩
  · rw [Policy.exact_of_gatherAll hown,
      Totals.sum_perm ((plan.perm_examineAll hv).map Totals.ofFile)]
  · rw [Report.sum?_eq_some_iff.mp hbelow, List.map_map]
    rfl

/-! ## A heavy tree -/

section

open MemoryTree

/-- The directories `r` and `r/a` with a file in each. Either file has half the
size at which totals stop to fit. -/
def heavy : MemoryTree where
  directories := [
    (.ofString "r", [⟨Utf8.ofString "a", .directory⟩, ⟨Utf8.ofString "x.j", .file⟩]),
    (.ofString "r/a", [⟨Utf8.ofString "y.j", .file⟩])]
  files := [
    (.ofString "r/x.j", ⟨⟨9223372036854775808, by decide⟩, Utf8.ofString "try"⟩),
    (.ofString "r/a/y.j", ⟨⟨9223372036854775808, by decide⟩, Utf8.ofString "try"⟩)]
  aliases := []
  planned := []

/-- Each directory alone fits, and the two together overflow. -/
theorem returns_overflow_iff_heavy :
    heavy.answers.isDirectory (.ofString "r") = true ∧
      lenient.FirstFatal heavy.answers (Visit.top (.ofString "r")) none ∧
      ∃ visits, heavy.answers.Walk (Visit.top (.ofString "r")) visits ∧
        (totalsOver lenient.selector heavy.answers visits).size = Count.limit ∧
        lenient.Returns heavy.answers (.ofString "r") (.error .overflow) := by
  let top := Visit.top (.ofString "r")
  let a := top.child (Utf8.ofString "a")
  have hnames : subdirectories [⟨Utf8.ofString "a", .directory⟩, ⟨Utf8.ofString "x.j", .file⟩]
      = [Utf8.ofString "a"] := sortNames_of_pairwise (by decide)
  have hfiles : lenient.selector.files
      [⟨Utf8.ofString "a", .directory⟩, ⟨Utf8.ofString "x.j", .file⟩]
      = [Utf8.ofString "x.j"] := sortNames_of_pairwise (by decide)
  have hnamesBelow : subdirectories [⟨Utf8.ofString "y.j", .file⟩] = [] :=
    sortNames_of_pairwise .nil
  have hfilesBelow : lenient.selector.files [⟨Utf8.ofString "y.j", .file⟩]
      = [Utf8.ofString "y.j"] := sortNames_of_pairwise (by decide)
  have htop : heavy.answers.standing top = .expanded _ := rfl
  have ha : heavy.answers.standing a = .expanded _ := rfl
  have hwalk : heavy.answers.Walk top [top, a] := by
    refine @SourceTree.Walk.expanded _ top _ [(Utf8.ofString "a", [a])] htop hnames.symm ?_
    intro b hb
    rw [List.mem_singleton.mp hb]
    exact @SourceTree.Walk.expanded _ a _ [] ha hnamesBelow.symm (by simp)
  have hfatal : [top, a].flatMap (lenient.fatalAt heavy.answers) = [] := by
    simp only [List.flatMap_cons, fatalAt, htop, ha, hfiles, hfilesBelow]
    rfl
  have hclear : lenient.FirstFatal heavy.answers top none := by
    have hfirst := @FirstFatal.of_walk lenient _ _ _ hwalk
    rwa [hfatal] at hfirst
  obtain ⟨visits, hvisits, hiff, -⟩ := returns_overflow_iff rfl hclear
  obtain rfl := hvisits.unique hwalk
  have hsize : (totalsOver lenient.selector heavy.answers [top, a]).size = Count.limit := by
    decide +kernel
  exact ⟨rfl, hclear, _, hwalk, hsize, hiff.mpr (.inl (Nat.le_of_eq hsize.symm))⟩

end

end Plan

end KeywordSurvey
