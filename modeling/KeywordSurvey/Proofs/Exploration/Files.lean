import KeywordSurvey.Journal.Event
import KeywordSurvey.Proofs.Exploration.Steps

/-!
# The files of a directory under a policy

The loop over the files of a directory comes through if its sums fit and every
failure is tolerated, and then it has added up the files that were read and
left out the others (`gatherAll_eq_ok_iff`, `exact_of_gatherAll`). A failure
that ends it is the first one that is not tolerated (`gatherAll_eq_failure`).
-/

namespace KeywordSurvey

namespace Policy

@[simp] theorem tolerates_strict (f : Failure) : tolerates .strict f = false := rfl

@[simp] theorem tolerates_skip (f : Failure) : tolerates .skip f = f.isPathFailure := rfl

theorem tolerate_of_tolerates {policy : Policy} {f : Failure} (h : policy.tolerates f = true)
    (path : Path) : policy.tolerate path f = .ok (skipOf path f) := by
  cases policy with
  | strict => cases h
  | skip =>
    rw [tolerates_skip] at h
    simp [tolerate, h, skipOf]

theorem tolerate_of_not_tolerates {policy : Policy} {f : Failure}
    (h : policy.tolerates f = false) (path : Path) :
    policy.tolerate path f = .error (.failure f) := by
  cases policy with
  | strict => rfl
  | skip =>
    rw [tolerates_skip] at h
    simp [tolerate, h]

end Policy

/-- A directory that cannot be listed ends the run if it is the root, or if its
failure is not tolerated. -/
theorem Exploration.unlistedSurvey_eq_failure {policy : Policy} {isRoot : Bool} {dir : Path}
    {f g : Failure} (h : unlistedSurvey policy isRoot dir f = .error (.failure g)) :
    f = g ∧ (isRoot = true ∨ policy.tolerates f = false) := by
  unfold unlistedSurvey at h
  split at h
  · next hroot =>
    cases h
    exact ⟨rfl, .inl hroot⟩
  · cases htol : policy.tolerates f with
    | true =>
      rw [Policy.tolerate_of_tolerates htol] at h
      cases h
    | false =>
      rw [Policy.tolerate_of_not_tolerates htol] at h
      cases h
      exact ⟨rfl, .inr rfl⟩

namespace ExaminedFile

/-- The file, if it was read. -/
def source? (file : ExaminedFile) : Option SourceFile := file.outcome.toOption

/-- The path that is left out, if the file was not read. -/
def skip? (file : ExaminedFile) : Option Skip :=
  match file.outcome with
  | .ok _ => none
  | .error f => some (skipOf file.path f)

/-- Why the file was not read. -/
def fault? (file : ExaminedFile) : Option Failure :=
  match file.outcome with
  | .ok _ => none
  | .error f => some f

theorem skip?_eq_map_fault? (file : ExaminedFile) :
    file.skip? = file.fault?.map (skipOf file.path) := by
  unfold skip? fault?
  cases file.outcome <;> rfl

theorem isRead_eq_isOk (file : ExaminedFile) : file.isRead = file.outcome.isOk := by
  unfold isRead
  cases file.outcome <;> rfl

theorem isRead_iff (file : ExaminedFile) : file.isRead = true ↔ file.fault? = none := by
  unfold isRead fault?
  cases file.outcome <;> simp

theorem source?_eq_none_iff (file : ExaminedFile) :
    file.source? = none ↔ file.isRead = false := by
  unfold source? isRead
  cases file.outcome <;> simp [Except.toOption]

theorem source?_examine (tree : SourceTree) (path : Path) :
    source? ⟨path, tree.examine path⟩ = tree.readable? path :=
  tree.examine_toOption path

theorem fault?_examine (tree : SourceTree) (path : Path) :
    fault? ⟨path, tree.examine path⟩ = tree.fault? path := by
  unfold fault?
  cases hexamine : tree.examine path with
  | error f => exact (SourceTree.examine_eq_error_iff.mp hexamine).symm
  | ok source =>
    cases hfault : tree.fault? path with
    | none => rfl
    | some f => simp [SourceTree.examine_eq_error_iff.mpr hfault] at hexamine

/-- Nothing is left out if there is no reason to. -/
theorem filterMap_skip?_eq_nil_iff (files : List ExaminedFile) :
    files.filterMap skip? = [] ↔ files.filterMap fault? = [] := by
  simp only [List.filterMap_eq_nil_iff, skip?_eq_map_fault?, Option.map_eq_none_iff]

end ExaminedFile

namespace Report

/-- Counts one file more. -/
def take? (own : Report) (source : SourceFile) : Option Report :=
  (FileReport.ofSource? source).bind own.addFile?

theorem take?_eq_some_iff {own : Report} {source : SourceFile} {total : Report} :
    own.take? source = some total ↔ total.exact = own.exact + Totals.ofFile source := by
  rw [take?, Option.bind_eq_some_iff]
  constructor
  · rintro ⟨report, hreport, htotal⟩
    rw [add?_eq_some_iff.mp htotal, exact_ofFile hreport]
  · intro h
    obtain ⟨report, hreport⟩ := exists_ofSource? (h ▸ total.fits_exact).of_add.2
    exact ⟨report, hreport, add?_eq_some_iff.mpr (by rw [h, exact_ofFile hreport])⟩

end Report

namespace Policy

variable {policy : Policy} {file : ExaminedFile} {files : List ExaminedFile}

/-! ## One file -/

theorem gather_read {source : SourceFile} (h : file.outcome = .ok source)
    (own : Report × List Skip) :
    policy.gather own file = (fitting (own.1.take? source)).map fun total => (total, own.2) := by
  simp only [gather, h, Report.take?]
  cases FileReport.ofSource? source with
  | none => rfl
  | some report =>
    show (fitting (own.1.addFile? report) >>= fun total => .ok (total, own.2)) = _
    rw [Option.bind_some]
    cases own.1.addFile? report <;> rfl

theorem gather_faulty {f : Failure} (h : file.outcome = .error f) (own : Report × List Skip) :
    policy.gather own file
      = (policy.tolerate file.path f).map fun skipped => (own.1, own.2 ++ [skipped]) := by
  simp only [gather, h]
  cases policy.tolerate file.path f <;> rfl

/-! ## All files -/

/-- The loop comes through if the sums over the files that were read fit and
the failures of the others are tolerated. -/
theorem foldlM_gather_eq_ok_iff {start own : Report × List Skip} :
    files.foldlM policy.gather start = .ok own ↔
      (files.filterMap ExaminedFile.source?).foldlM Report.take? start.1 = some own.1 ∧
        (∀ f ∈ files.filterMap ExaminedFile.fault?, policy.tolerates f = true) ∧
        own.2 = start.2 ++ files.filterMap ExaminedFile.skip? := by
  induction files generalizing start with
  | nil =>
    rw [List.foldlM_nil, List.filterMap_nil, List.filterMap_nil, List.filterMap_nil,
      List.foldlM_nil, List.append_nil]
    constructor
    · intro h
      cases h
      exact ⟨rfl, by simp, rfl⟩
    · rintro ⟨hreport, -, hskipped⟩
      exact congrArg Except.ok (Prod.ext (Option.some.inj hreport) hskipped.symm)
  | cons file files ih =>
    rw [List.foldlM_cons, bind_eq_ok_iff]
    cases hout : file.outcome with
    | ok source =>
      have hsource : file.source? = some source := by rw [ExaminedFile.source?, hout]; rfl
      have hfault : file.fault? = none := by rw [ExaminedFile.fault?, hout]
      have hskip : file.skip? = none := by rw [ExaminedFile.skip?, hout]
      rw [gather_read hout, List.filterMap_cons_some hsource, List.filterMap_cons_none hfault,
        List.filterMap_cons_none hskip, List.foldlM_cons, Option.bind_eq_bind,
        Option.bind_eq_some_iff]
      simp only [map_eq_ok_iff, fitting_eq_ok_iff, ih]
      constructor
      · rintro ⟨_, ⟨total, htotal, rfl⟩, hsum, hrest⟩
        exact ⟨⟨total, htotal, hsum⟩, hrest⟩
      · rintro ⟨⟨total, htotal, hsum⟩, hrest⟩
        exact ⟨(total, start.2), ⟨total, htotal, rfl⟩, hsum, hrest⟩
    | error f =>
      have hsource : file.source? = none := by rw [ExaminedFile.source?, hout]; rfl
      have hfault : file.fault? = some f := by rw [ExaminedFile.fault?, hout]
      have hskip : file.skip? = some (skipOf file.path f) := by rw [ExaminedFile.skip?, hout]
      rw [gather_faulty hout, List.filterMap_cons_none hsource, List.filterMap_cons_some hfault,
        List.filterMap_cons_some hskip, List.forall_mem_cons]
      cases htol : policy.tolerates f with
      | true => simp [tolerate_of_tolerates htol, Except.map, ih]
      | false => simp [tolerate_of_not_tolerates htol, Except.map]

theorem gatherAll_eq_ok_iff {own : Report × List Skip} :
    policy.gatherAll files = .ok own ↔
      (files.filterMap ExaminedFile.source?).foldlM Report.take? Report.empty = some own.1 ∧
        (∀ f ∈ files.filterMap ExaminedFile.fault?, policy.tolerates f = true) ∧
        own.2 = files.filterMap ExaminedFile.skip? :=
  foldlM_gather_eq_ok_iff

/-- The own report of a directory has the totals of the files that were read. -/
theorem exact_of_gatherAll {own : Report × List Skip} (h : policy.gatherAll files = .ok own) :
    own.1.exact = Totals.sum ((files.filterMap ExaminedFile.source?).map Totals.ofFile) := by
  have hsum := (gatherAll_eq_ok_iff.mp h).1
  rw [Report.foldlM_eq_some_iff @Report.take?_eq_some_iff, Report.exact_empty, zero_add] at hsum
  exact hsum

/-- **The first failure that is not tolerated ends the loop.** -/
theorem gatherAll_eq_failure {f : Failure} (h : policy.gatherAll files = .error (.failure f)) :
    (files.filterMap ExaminedFile.fault?).find? (fun f => !policy.tolerates f) = some f := by
  suffices hloop : ∀ start : Report × List Skip,
      files.foldlM policy.gather start = .error (.failure f) →
        (files.filterMap ExaminedFile.fault?).find? (fun f => !policy.tolerates f) = some f by
    exact hloop _ h
  clear h
  induction files with
  | nil =>
    intro start h
    cases h
  | cons file files ih =>
    intro start h
    rw [List.foldlM_cons] at h
    cases hout : file.outcome with
    | ok source =>
      have hfault : file.fault? = none := by rw [ExaminedFile.fault?, hout]
      rw [gather_read hout] at h
      rw [List.filterMap_cons_none hfault]
      cases htotal : start.1.take? source with
      | none =>
        rw [htotal] at h
        cases h
      | some total =>
        rw [htotal] at h
        exact ih _ h
    | error g =>
      have hfault : file.fault? = some g := by rw [ExaminedFile.fault?, hout]
      rw [gather_faulty hout] at h
      rw [List.filterMap_cons_some hfault]
      cases htol : policy.tolerates g with
      | true =>
        rw [tolerate_of_tolerates htol] at h
        rw [List.find?_cons_of_neg (by simp [htol])]
        exact ih _ h
      | false =>
        rw [tolerate_of_not_tolerates htol] at h
        cases h
        exact List.find?_cons_of_pos (by simp [htol])

/-! ## The two policies -/

/-- A loop that ends at any failure comes through exactly if the one that
tolerates failures leaves nothing out. -/
theorem gatherAll_strict_eq_ok_iff {own : Report × List Skip} :
    gatherAll .strict files = .ok own ↔ gatherAll .skip files = .ok own ∧ own.2 = [] := by
  rw [gatherAll_eq_ok_iff, gatherAll_eq_ok_iff]
  have hnil : (∀ f ∈ files.filterMap ExaminedFile.fault?, tolerates .strict f = true) ↔
      files.filterMap ExaminedFile.fault? = [] := by
    simp [List.eq_nil_iff_forall_not_mem]
  rw [hnil, and_assoc, and_assoc]
  refine and_congr_right fun _ => ?_
  rw [← ExaminedFile.filterMap_skip?_eq_nil_iff]
  constructor
  · rintro ⟨hskip, hown⟩
    have hfault := (ExaminedFile.filterMap_skip?_eq_nil_iff files).mp hskip
    exact ⟨by simp [hfault], hown, hown.trans hskip⟩
  · rintro ⟨-, hown, hempty⟩
    exact ⟨hown.symm.trans hempty, hown⟩

/-- The files that a tolerant loop reads are read by a strict one, with the
same report. -/
theorem gatherAll_strict_filter {own : Report × List Skip}
    (h : gatherAll .skip files = .ok own) :
    gatherAll .strict (files.filter ExaminedFile.isRead) = .ok (own.1, []) := by
  have hfault : (files.filter ExaminedFile.isRead).filterMap ExaminedFile.fault? = [] := by
    rw [List.filterMap_eq_nil_iff]
    intro file hfile
    exact (ExaminedFile.isRead_iff file).mp (List.mem_filter.mp hfile).2
  have hsource : (files.filter ExaminedFile.isRead).filterMap ExaminedFile.source?
      = files.filterMap ExaminedFile.source? := by
    rw [List.filterMap_filter]
    refine List.filterMap_congr fun file _ => ?_
    by_cases hread : file.isRead = true
    · rw [if_pos hread]
    · rw [if_neg hread, (ExaminedFile.source?_eq_none_iff file).mpr (by simpa using hread)]
  rw [gatherAll_eq_ok_iff, hsource, hfault]
  refine ⟨(gatherAll_eq_ok_iff.mp h).1, by simp, ?_⟩
  exact ((ExaminedFile.filterMap_skip?_eq_nil_iff _).mpr hfault).symm

end Policy

namespace Plan

/-! ## Files of a tree -/

theorem filterMap_source?_examineAll (plan : Plan) (tree : SourceTree) (dir : Path)
    (entries : List Entry) :
    (plan.examineAll tree dir entries).filterMap ExaminedFile.source?
      = (plan.selector.files entries).filterMap fun name => tree.readable? (dir.join name) := by
  simp only [examineAll, List.filterMap_map, Function.comp_def, ExaminedFile.source?_examine]

theorem filterMap_fault?_examineAll (plan : Plan) (tree : SourceTree) (dir : Path)
    (entries : List Entry) :
    (plan.examineAll tree dir entries).filterMap ExaminedFile.fault?
      = (plan.selector.files entries).filterMap fun name => tree.fault? (dir.join name) := by
  simp only [examineAll, List.filterMap_map, Function.comp_def, ExaminedFile.fault?_examine]

end Plan

end KeywordSurvey
