import KeywordSurvey.Proofs.Failure.Layers
import KeywordSurvey.Proofs.Survey.Alike
import KeywordSurvey.Proofs.Survey.FirstFailure
import KeywordSurvey.Proofs.Survey.Interleaving
import KeywordSurvey.SourceTree.Memory

/-!
# Remarks and runs

A tree may put remarks in front of its failures, others for each question and
each path. A run does not take notice of them: it comes to the same end, and
they are found again in front of the reasons for what was left out, or in front
of the failure at which it ended (`Plan.returnsWith_remarked`).
-/

namespace KeywordSurvey

theorem answered_mapError {α : Type} {fails : Failure → Failure → Prop} {x : Except Failure α}
    {k : Failure → Failure} (h : ∀ f, x = .error f → fails f (k f)) :
    Answered fails x (x.mapError k) := by
  cases x with
  | ok a => exact .ok a
  | error f => exact .error (h f rfl)

namespace SourceTree

variable {tree : SourceTree} {remarks : Question → Path → List String} {root : Path}

/-- The tree has a failure in place of an answer. -/
def Refuses (tree : SourceTree) : Question → Path → Failure → Prop
  | .list, path, f => tree.list path = .error f
  | .contents, path, f => tree.contents path = .error f
  | .size, path, f => tree.size path = .error f
  | .identity, path, f => tree.identity path = .error f

/-- The tree with remarks on its failures, added one after the other. -/
def remarked (tree : SourceTree) (remarks : Question → Path → List String) : SourceTree where
  list path := (tree.list path).mapError (·.remarkAll (remarks .list path))
  isDirectory := tree.isDirectory
  identity path := (tree.identity path).mapError (·.remarkAll (remarks .identity path))
  contents path := (tree.contents path).mapError (·.remarkAll (remarks .contents path))
  size path := (tree.size path).mapError (·.remarkAll (remarks .size path))

/-- A failure of the tree, and the same with the remarks on it. -/
def RemarkedAt (tree : SourceTree) (remarks : Question → Path → List String) (path : Path)
    (f g : Failure) : Prop :=
  ∃ question, tree.Refuses question path f ∧ g = f.remarkAll (remarks question path)

theorem sameSort_remarkedAt : SameSort (tree.RemarkedAt remarks) := by
  rintro path f g ⟨question, -, rfl⟩
  exact (f.isPathFailure_remarkAll _).symm

theorem failAlike_remarked :
    tree.FailAlike (tree.RemarkedAt remarks) (tree.remarked remarks) where
  isDirectory _ := rfl
  list _ := answered_mapError fun _ h => ⟨.list, h, rfl⟩
  identity _ := answered_mapError fun _ h => ⟨.identity, h, rfl⟩
  contents _ := answered_mapError fun _ h => ⟨.contents, h, rfl⟩
  size _ := answered_mapError fun _ h => ⟨.size, h, rfl⟩
  sameSort := sameSort_remarkedAt

/-- A path that is left out of both, with the remarks on the failure in front of
the reason. -/
structure RemarkedSkip (tree : SourceTree) (remarks : Question → Path → List String)
    (a b : Skip) : Prop where
  path : b.path = a.path
  reason : ∃ question f, tree.Refuses question a.path f ∧ a.reason = f.message ∧
    b.reason = Failure.preface (remarks question a.path) ++ a.reason

/-- How a run over the tree ends, and how one over the tree with remarks does. -/
inductive RemarkedOutcome (tree : SourceTree) (remarks : Question → Path → List String)
    (root : Path) : Except Abort Survey → Except Abort Survey → Prop
  | survey {s t : Survey} : s.root = t.root →
      List.Forall₂ (tree.RemarkedSkip remarks) s.skipped t.skipped →
      RemarkedOutcome tree remarks root (.ok s) (.ok t)
  | overflow : RemarkedOutcome tree remarks root (.error .overflow) (.error .overflow)
  | noRoot : tree.isDirectory root = false →
      RemarkedOutcome tree remarks root (.error (Plan.noRoot root)) (.error (Plan.noRoot root))
  | failure {question : Question} {path : Path} {f : Failure} : tree.Refuses question path f →
      RemarkedOutcome tree remarks root (.error (.failure f))
        (.error (.failure (f.remarkAll (remarks question path))))

theorem remarkedSkip_of_alike {a b : Skip} (h : a.Alike (tree.RemarkedAt remarks) b) :
    tree.RemarkedSkip remarks a b := by
  obtain ⟨f, g, ⟨question, hrefuses, rfl⟩, ha, rfl⟩ := h
  have hreason : a.reason = f.message := congrArg Skip.reason ha
  refine ⟨rfl, question, f, hrefuses, hreason, ?_⟩
  rw [hreason]
  exact f.message_remarkAll _

theorem remarkedOutcome_of_matched {x y : Except Abort Survey}
    (h : MatchedAt (tree.RemarkedAt remarks) (Survey.Alike (tree.RemarkedAt remarks)) x y) :
    tree.RemarkedOutcome remarks root x y := by
  cases h with
  | ok hs => exact .survey hs.root (hs.skipped.imp fun _ _ => remarkedSkip_of_alike)
  | overflow => exact .overflow
  | failure hfails =>
    obtain ⟨path, question, hrefuses, rfl⟩ := hfails
    exact .failure hrefuses

end SourceTree

namespace Plan

theorem returns_noRoot_iff {plan : Plan} {tree : SourceTree} {root : Path}
    (hroot : tree.isDirectory root = false) {outcome : Except Abort Survey} :
    plan.Returns tree root outcome ↔ outcome = .error (noRoot root) := by
  simp only [Returns, run?_of_not_directory hroot, exists_const, Option.some.injEq, eq_comm]

/-- **Remarks change texts and nothing else.** A failure with remarks is about the
same cause, which has none itself, and about a single file or a single path if
it was; its message is what the remarks put in front, the last one first, and
then the message without them. So a run over a tree with remarks ends if one
over the tree itself does, with the same folder and the same paths left out for
reasons with the remarks in front, or at the same failure. -/
theorem returnsWith_remarked :
    (∀ (f : Failure) (texts : List String),
      (f.remarkAll texts).rootCause = f.rootCause ∧ f.rootCause.remarks = [] ∧
      (f.remarkAll texts).isUnreadableFile = f.isUnreadableFile ∧
      (f.remarkAll texts).isPathFailure = f.isPathFailure ∧
      (f.remarkAll texts).message = Failure.preface texts ++ f.message) ∧
    ∀ (tree : SourceTree) (remarks : Question → Path → List String) (plan : Plan) (jobs : Nat)
      (root : Path),
      (∀ x, plan.ReturnsWith tree jobs root x →
        ∃ y, plan.ReturnsWith (tree.remarked remarks) jobs root y ∧
          tree.RemarkedOutcome remarks root x y) ∧
      (∀ y, plan.ReturnsWith (tree.remarked remarks) jobs root y →
        ∃ x, plan.ReturnsWith tree jobs root x ∧ tree.RemarkedOutcome remarks root x y) := by
  constructor
  · intro f texts
    refine ⟨f.rootCause_remarkAll texts, ?_, f.isUnreadableFile_remarkAll texts,
      f.isPathFailure_remarkAll texts, f.message_remarkAll texts⟩
    rw [f.rootCause_eq]
    rfl
  intro tree remarks plan jobs root
  simp only [(returnsWith_iff_returns ..).1]
  cases hroot : tree.isDirectory root with
  | false =>
    have hroot' : (tree.remarked remarks).isDirectory root = false := hroot
    simp only [returns_noRoot_iff hroot, returns_noRoot_iff hroot', exists_eq_left, forall_eq]
    exact ⟨.noRoot hroot, .noRoot hroot⟩
  | true =>
    have hboth : tree.FailAlike (tree.RemarkedAt remarks) (tree.remarked remarks) :=
      SourceTree.failAlike_remarked
    obtain ⟨hleft, hright⟩ := hboth.returns plan hroot
    constructor
    · intro x hx
      obtain ⟨y, hy, hmatched⟩ := hleft x hx
      exact ⟨y, hy, SourceTree.remarkedOutcome_of_matched hmatched⟩
    · intro y hy
      obtain ⟨x, hx, hmatched⟩ := hright y hy
      exact ⟨x, hx, SourceTree.remarkedOutcome_of_matched hmatched⟩

section

open MemoryTree

/-- Two remarks on each failure of the small tree. A file and a directory of it
are left out as before, and the severe plan ends at the same file. -/
theorem returnsWith_remarked_linked :
    let remarked := linked.answers.remarked fun _ _ => ["inner", "outer"]
    (∃ s t, lenient.ReturnsWith linked.answers 2 (.ofString "r") (.ok s) ∧
      lenient.ReturnsWith remarked 2 (.ofString "r") (.ok t) ∧ t.root = s.root ∧
      t.skipped.map Skip.path = [.ofString "r/x.j", .ofString "r/a/k"] ∧
      t.skipped.map Skip.reason = s.skipped.map ("outer: inner: " ++ ·.reason)) ∧
    severe.ReturnsWith remarked 2 (.ofString "r")
      (.error (.failure (((noFile (.ofString "r/x.j")).remark "inner").remark "outer"))) := by
  intro remarked
  have hruns := returnsWith_remarked.2 linked.answers fun _ _ => ["inner", "outer"]
  constructor
  · obtain ⟨levels, s, hrun, -, -, hpaths⟩ := exists_run?_linked
    have hs : lenient.ReturnsWith linked.answers 2 (.ofString "r") (.ok s) :=
      (returnsWith_iff_returns ..).1.mpr ⟨levels, hrun⟩
    obtain ⟨_, ht, houtcome⟩ := (hruns lenient 2 (.ofString "r")).1 _ hs
    cases houtcome with
    | @survey _ t hroot hskipped =>
      refine ⟨s, t, hs, ht, hroot.symm, ?_, ?_⟩
      · rw [← hpaths]
        exact (map_eq_map_of_forall₂ hskipped fun _ _ h => h.path.symm).symm
      · refine (map_eq_map_of_forall₂ hskipped fun a b h => ?_).symm
        obtain ⟨-, question, f, -, -, hreason⟩ := h
        exact hreason.symm
  · have hfails : severe.ReturnsWith linked.answers 2 (.ofString "r")
        (.error (.failure (noFile (.ofString "r/x.j")))) :=
      (returnsWith_iff_returns ..).1.mpr severe_returns_linked
    obtain ⟨_, hends, houtcome⟩ := (hruns severe 2 (.ofString "r")).1 _ hfails
    cases houtcome with
    | failure => exact hends

end

end Plan

end KeywordSurvey
