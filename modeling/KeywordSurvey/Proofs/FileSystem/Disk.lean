import KeywordSurvey.FileSystem.Tree
import KeywordSurvey.Proofs.Survey.Confined

/-!
# Failures of disks

Whatever the system and the walker say, what fails on a disk concerns a single
path. A walk error that names an entry is no failure at all: a listing fails
with the first error of its walk that names none (`Disk.list_eq_error_iff`).
-/

namespace KeywordSurvey

namespace Disk

variable {disk : Disk} {dir path : Path} {f : Failure}

/-! ## Listings -/

theorem found_eq_error_iff {item : Except WalkError Walked} :
    disk.found dir item = .error f ↔
      ∃ e, item = .error e ∧ e.entryName? dir = none ∧ disk.listFailure dir e = f := by
  cases item with
  | ok item => simp [found]
  | error e => cases he : e.entryName? dir <;> simp [found, he]

theorem exists_found_eq_ok_iff {item : Except WalkError Walked} :
    (∃ r, disk.found dir item = .ok r) ↔ ∀ e, item = .error e → (e.entryName? dir).isSome := by
  cases item with
  | ok item => simp [found]
  | error e => cases he : e.entryName? dir <;> simp [found, he]

/-- **A listing fails with the first error that names no entry.** All errors
before it name one. -/
theorem list_eq_error_iff :
    disk.list dir = .error f ↔ ∃ before e after, disk.walk dir = before ++ .error e :: after ∧
      (∀ earlier, .error earlier ∈ before → (earlier.entryName? dir).isSome) ∧
      e.entryName? dir = none ∧ disk.listFailure dir e = f := by
  rw [list, inspect, map_eq_error_iff, map_eq_error_iff, mapM_eq_error_iff]
  constructor
  · rintro ⟨before, item, after, hwalk, hbefore, hitem⟩
    obtain ⟨e, rfl, hname, hf⟩ := found_eq_error_iff.mp hitem
    exact ⟨before, e, after, hwalk,
      fun earlier hmem => exists_found_eq_ok_iff.mp (hbefore _ hmem) earlier rfl, hname, hf⟩
  · rintro ⟨before, e, after, hwalk, hbefore, hname, hf⟩
    refine ⟨before, .error e, after, hwalk, fun item hitem => exists_found_eq_ok_iff.mpr ?_,
      found_eq_error_iff.mpr ⟨e, rfl, hname, hf⟩⟩
    rintro earlier rfl
    exact hbefore earlier hitem

/-! ## What fails -/

section

variable (operation : String) (error : SystemError)

@[simp] theorem isPathFailure_directoryFailure :
    (directoryFailure operation dir error).isPathFailure = true := rfl

@[simp] theorem isUnreadableFile_directoryFailure :
    (directoryFailure operation dir error).isUnreadableFile = false := rfl

@[simp] theorem isPathFailure_fileFailure : (fileFailure path error).isPathFailure = true := rfl

@[simp] theorem isUnreadableFile_fileFailure :
    (fileFailure path error).isUnreadableFile = true := rfl

end

/-- A directory that cannot be listed or resolved is a failure of the directory. -/
theorem directory_fails
    (h : disk.answers.list dir = .error f ∨ disk.answers.identity dir = .error f) :
    ∃ operation error, f = directoryFailure operation dir error := by
  rcases h with h | h
  · obtain ⟨-, e, -, -, -, -, rfl⟩ := list_eq_error_iff.mp h
    exact ⟨_, _, rfl⟩
  · obtain ⟨error, -, rfl⟩ := mapError_eq_error_iff.mp h
    exact ⟨_, error, rfl⟩

/-- A file that cannot be read, or has no size, is a failure of the file. -/
theorem file_fails
    (h : disk.answers.contents path = .error f ∨ disk.answers.size path = .error f) :
    ∃ error, f = fileFailure path error := by
  rcases h with h | h
  · obtain ⟨error, -, rfl⟩ := mapError_eq_error_iff.mp h
    exact ⟨error, rfl⟩
  · obtain ⟨error, -, rfl⟩ := mapError_eq_error_iff.mp h
    exact ⟨error, rfl⟩

/-- **Nothing that fails on a disk concerns more than one path.** -/
theorem answers_confined (disk : Disk) : disk.answers.Confined where
  list h := by
    obtain ⟨operation, error, rfl⟩ := directory_fails (.inl h)
    simp
  identity h := by
    obtain ⟨operation, error, rfl⟩ := directory_fails (.inr h)
    simp
  contents h := by
    obtain ⟨error, rfl⟩ := file_fails (.inl h)
    simp
  size h := by
    obtain ⟨error, rfl⟩ := file_fails (.inr h)
    simp

/-! ## Runs over disks -/

/-- A root that cannot be listed cannot be resolved, or can be resolved and has
no entries. -/
theorem standing_top_iff {root : Path} :
    disk.answers.standing (Visit.top root) = .unlisted f ↔
      disk.answers.identity root = .error f ∨
        (∃ identity, disk.answers.identity root = .ok identity) ∧
          disk.answers.list root = .error f := by
  rw [SourceTree.standing_eq_unlisted_iff]
  simp [Visit.top]

/-- **A run that leaves paths out is ended by nothing below its root.** On a
disk of any shape, whatever errors its walker yields, all failures concern
single paths, and only those of reading a file are about files. A run under the
policy that leaves paths out fails exactly if its root is no directory, or
cannot be resolved, or cannot be listed, and with that failure. If the disk has
only so many directories, then a run whose root is listed returns a survey,
unless a sum overflows. -/
theorem returnsWith_failure_iff (disk : Disk) (selector : Selector) (root : Path) :
    (∀ dir f, disk.answers.list dir = .error f ∨ disk.answers.identity dir = .error f →
      f.isPathFailure = true ∧ f.isUnreadableFile = false) ∧
    (∀ path f, disk.answers.contents path = .error f ∨ disk.answers.size path = .error f →
      f.isPathFailure = true ∧ f.isUnreadableFile = true) ∧
    (∀ jobs f,
      Plan.ReturnsWith ⟨selector, .skip⟩ disk.answers jobs root (.error (.failure f)) ↔
        disk.isDirectory root = false ∧ f = .of (.invalidPath root) ∨
        disk.isDirectory root = true ∧
          (disk.answers.identity root = .error f ∨
            (∃ identity, disk.answers.identity root = .ok identity) ∧
              disk.answers.list root = .error f)) ∧
    ∀ identities : List Path,
      (∀ dir identity entries, disk.answers.identity dir = .ok identity →
        disk.answers.list dir = .ok entries → ∃ known ∈ identities, known.same identity = true) →
      disk.isDirectory root = true → (∃ identity, disk.answers.identity root = .ok identity) →
      (∃ entries, disk.answers.list root = .ok entries) →
      ∀ jobs, (∃ s, Plan.ReturnsWith ⟨selector, .skip⟩ disk.answers jobs root (.ok s)) ∨
        Plan.ReturnsWith ⟨selector, .skip⟩ disk.answers jobs root (.error .overflow) := by
  have hfails : ∀ f, Plan.Returns ⟨selector, .skip⟩ disk.answers root (.error (.failure f)) ↔ _ :=
    fun f => Plan.returns_failure_iff_unlisted disk.answers_confined rfl
  refine ⟨fun dir f h => ?_, fun path f h => ?_, fun jobs f => ?_, ?_⟩
  · obtain ⟨operation, error, rfl⟩ := directory_fails h
    simp
  · obtain ⟨error, rfl⟩ := file_fails h
    simp
  · rw [Plan.returnsWith_iff, hfails, standing_top_iff]
    rfl
  · rintro identities hcovers hroot ⟨identity, hid⟩ ⟨entries, hlist⟩ jobs
    let bounded : BoundedTree := ⟨disk.answers, identities, hcovers _ _ _⟩
    simp only [Plan.returnsWith_iff]
    obtain ⟨outcome, hreturns⟩ := Plan.exists_returns ⟨selector, .skip⟩
      (bounded.calls_wf.apply (Visit.top root))
    match outcome, hreturns with
    | .ok s, hreturns => exact .inl ⟨s, hreturns⟩
    | .error .overflow, hreturns => exact .inr hreturns
    | .error (.failure f), hreturns =>
      rcases (hfails f).mp hreturns with ⟨hdir, -⟩ | ⟨-, hv⟩
      · cases hroot.symm.trans hdir
      · rcases standing_top_iff.mp hv with h | ⟨-, h⟩
        · cases hid.symm.trans h
        · cases hlist.symm.trans h

section

open FileSystem

/-- A directory with all sorts of entries: a link that leads nowhere, one that
leads back, a file that cannot be read, and a directory with a link to itself. -/
def crooked : FileSystem where
  nodes :=
    let name := Utf8.ofString
    [([], .directory), ([name "r"], .directory), ([name "r", name "a"], .link (name "gone")),
      ([name "r", name "b"], .link (name ".")), ([name "r", name "m.j"], .unreadable 5),
      ([name "r", name "s"], .directory), ([name "r", name "s", name "c"], .link (name "c"))]
  current := []

/-- The same directory, which may no longer be listed. -/
def locked : Disk :=
  { crooked.disk with walk := fun dir => [.error (walkError dir 0 (.number 13))] }

/-- None of what is crooked ends a run, whatever it is a failure of. That the
root is locked does. -/
theorem returnsWith_failure_iff_crooked :
    crooked.disk.answers.list (.ofString "r") = .ok
        [⟨Utf8.ofString "a", .other⟩, ⟨Utf8.ofString "b", .directory⟩,
          ⟨Utf8.ofString "m.j", .file⟩, ⟨Utf8.ofString "s", .directory⟩] ∧
      (∃ f, crooked.disk.answers.list (.ofString "r/a") = .error f ∧
        f.isPathFailure = true ∧ f.isUnreadableFile = false) ∧
      (∃ f, crooked.disk.answers.contents (.ofString "r/m.j") = .error f ∧
        f.isPathFailure = true ∧ f.isUnreadableFile = true) ∧
      ((∃ s, Plan.lenient.ReturnsWith crooked.disk.answers 2 (.ofString "r") (.ok s)) ∨
        Plan.lenient.ReturnsWith crooked.disk.answers 2 (.ofString "r") (.error .overflow)) ∧
      Plan.lenient.ReturnsWith locked.answers 2 (.ofString "r")
        (.error (.failure (directoryFailure "read_dir" (.ofString "r")
          (.walking (.ofString "r") (.number 13))))) := by
  obtain ⟨hdirectory, hfile, -, hgoesOn⟩ :=
    returnsWith_failure_iff crooked.disk Plan.lenient.selector (.ofString "r")
  obtain ⟨-, -, hends, -⟩ :=
    returnsWith_failure_iff locked Plan.lenient.selector (.ofString "r")
  refine ⟨rfl, ⟨_, rfl, hdirectory (.ofString "r/a") _ (.inl rfl)⟩,
    ⟨_, rfl, hfile (.ofString "r/m.j") _ (.inl rfl)⟩, ?_, ?_⟩
  · exact hgoesOn crooked.bounded.identities
      (fun _ _ _ hid hlist => crooked.bounded.covers hid hlist)
      rfl ⟨_, rfl⟩ ⟨_, rfl⟩ 2
  · exact (hends 2 _).mpr (.inr ⟨rfl, .inr ⟨⟨_, rfl⟩, rfl⟩⟩)

end

end Disk

end KeywordSurvey
