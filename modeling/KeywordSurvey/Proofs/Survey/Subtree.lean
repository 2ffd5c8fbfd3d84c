import KeywordSurvey.Proofs.Survey.Outcomes
import KeywordSurvey.Proofs.Survey.Skipped

/-!
# Surveys of subtrees

A walk asks of the directories above it only whether it has come back to one
of them. Where it never does, those directories make no difference
(`Plan.Yields.of_apart`), and a run that starts at a directory of a survey
returns the part of the survey there (`Plan.returns_subtree`).
-/

namespace KeywordSurvey

namespace SourceTree

variable {tree : SourceTree} {outer : List Path} {dir : Path}

/-- The directory is none of these directories, by whatever path. -/
def Apart (tree : SourceTree) (dirs : List Path) (dir : Path) : Prop :=
  ∀ identity, tree.identity dir = .ok identity →
    ∀ above ∈ dirs, ∀ other, tree.identity above = .ok other → identity.same other = false

theorem lineage_append (inner outer : List Path) :
    tree.lineage (inner ++ outer) = tree.lineage inner ++ tree.lineage outer :=
  List.filterMap_append

theorem Apart.any_same {identity : Path} (h : tree.Apart outer dir)
    (hid : tree.identity dir = .ok identity) :
    (tree.lineage outer).any identity.same = false := by
  rw [List.any_eq_false]
  intro other hother
  obtain ⟨above, habove, hid'⟩ := mem_lineage.mp hother
  simp [h identity hid above habove other hid']

/-- What becomes of a directory does not hang on directories above it that it
is none of. -/
theorem standing_append (inner : List Path) (h : tree.Apart outer dir) :
    tree.standing ⟨inner ++ outer, dir⟩ = tree.standing ⟨inner, dir⟩ := by
  unfold standing
  cases hid : tree.identity dir with
  | error f => rfl
  | ok identity =>
    simp only [lineage_append, List.any_append, h.any_same hid, Bool.or_false]

/-- A directory that is expanded is none of those above it. -/
theorem apart_of_isExpanded {v : Visit} (h : (tree.standing v).isExpanded = true) :
    tree.Apart v.above v.dir := by
  obtain ⟨entries, hv⟩ := Standing.isExpanded_iff.mp h
  obtain ⟨identity, hid, -, hnew⟩ := standing_eq_expanded_iff.mp hv
  intro other hother above habove
  cases hid.symm.trans hother
  exact hnew above habove

end SourceTree

namespace Plan

variable {plan : Plan} {tree : SourceTree}

/-- **Directories that are never met again can be forgotten.** What is yielded
under the directories `inner ++ outer` is yielded under `inner` alone, if no
directory of it is one of `outer`. It must not become the start of a walk if it
cannot be listed. -/
theorem Yields.of_apart {v : Visit} {s : Survey} {outer : List Path}
    (h : plan.Yields tree v s) : ∀ inner : List Path, v.above = inner ++ outer →
      (inner = [] → (tree.standing v).isExpanded = true) →
      (∀ n ∈ s.root.nodes v.above, tree.Apart outer n.1.dir) →
      plan.Yields tree ⟨inner, v.dir⟩ s := by
  induction h with
  | @cycle v hv =>
    intro inner habove _ hapart
    have hstanding := SourceTree.standing_append inner
      (hapart (v, Folder.leaf v.dir) (by simp))
    rw [← habove, hv] at hstanding
    exact .cycle hstanding.symm
  | @unlisted v f skipped hv _ htol =>
    intro inner habove hinner hapart
    have hstanding := SourceTree.standing_append inner
      (hapart (v, Folder.leaf v.dir) (by simp))
    rw [← habove, hv] at hstanding
    refine .unlisted hstanding.symm (fun hnil => ?_) htol
    simp [hv] at hinner
    exact hinner hnil
  | @expanded v entries own below s hv hown hnames _ hs ih =>
    intro inner habove _ hapart
    rw [nodes_expanded hs] at hapart
    have hstanding := SourceTree.standing_append inner
      (hapart (v, s.root) List.mem_cons_self)
    rw [← habove, hv] at hstanding
    refine .expanded hstanding.symm hown hnames (fun b hb => ?_) hs
    -- below, the directory itself is one of the inner ones
    refine ih b hb (v.dir :: inner) ?_ (by simp) fun n hn => ?_
    · rw [Visit.above_child, habove, List.cons_append]
    · exact hapart n (List.mem_cons_of_mem _ (List.mem_flatMap.mpr ⟨b, hb, hn⟩))

/-- **The survey of a subtree is the part of the survey there.** Let a run
return a survey, and let `n` be a directory of it that was expanded, with
nothing below it that is one of the directories above it. Then a run that
starts there returns the folder of `n`, and leaves out what the whole run
leaves out between what comes before `n` and what comes after its subtree. -/
theorem returns_subtree {root : Path} {s : Survey} (h : plan.Returns tree root (.ok s))
    {before after : List (Visit × Folder)} {n : Visit × Folder}
    (hn : s.root.nodes [] = before ++ n :: after)
    (hexpanded : (tree.standing n.1).isExpanded = true)
    (hdir : tree.isDirectory n.2.path = true)
    (hapart : ∀ m ∈ (n.2.nodes n.1.above).tail, tree.Apart n.1.above m.1.dir) :
    ∃ t rest, plan.Returns tree n.2.path (.ok t) ∧ t.root = n.2 ∧
      n :: after = n.2.nodes n.1.above ++ rest ∧
      t.skipped
        = ((n.2.nodes n.1.above).map Prod.fst).flatMap (skipsAt plan.selector tree) ∧
      s.skipped
        = (before.map Prod.fst).flatMap (skipsAt plan.selector tree) ++ t.skipped
          ++ (rest.map Prod.fst).flatMap (skipsAt plan.selector tree) := by
  have hyields := (returns_ok_iff.mp h).2
  obtain ⟨t, ht, hroot, -⟩ := hyields.of_mem_nodes n (by simp [Visit.top, hn])
  obtain ⟨rest, hrest⟩ := s.root.nodes_prefix_of_split hn
  have hpath : n.2.path = n.1.dir := by rw [← hroot, ht.path]
  have hskipped := ht.skipped_eq
  rw [hroot] at hskipped
  have hall : ∀ m ∈ t.root.nodes n.1.above, tree.Apart n.1.above m.1.dir := by
    intro m hm
    rw [hroot] at hm
    rw [Folder.nodes_eq, hpath] at hm hapart
    rcases List.mem_cons.mp hm with rfl | hm
    · exact SourceTree.apart_of_isExpanded hexpanded
    · exact hapart m hm
  have htop := ht.of_apart [] rfl (fun _ => hexpanded) hall
  refine ⟨t, rest, returns_ok_iff.mpr ⟨hdir, ?_⟩, hroot, hrest.symm, hskipped, ?_⟩
  · rw [hpath]
    exact htop
  · have hwhole := hyields.skipped_eq
    rw [Visit.top] at hwhole
    rw [hwhole, hn, ← hrest, List.map_append, List.map_append, List.flatMap_append,
      List.flatMap_append, ← hskipped, List.append_assoc]

section

open MemoryTree

/-- The link `r/b` of the small tree leads back to `r`, and nothing in `r/a`
does. So the survey of `r/a` is a part of that of `r`, and of the two paths
left out there it leaves out the one that lies in `r/a`. -/
theorem returns_subtree_linked : ∃ s n t,
    lenient.Returns linked.answers (.ofString "r") (.ok s) ∧
      s.skipped.map Skip.path = [.ofString "r/x.j", .ofString "r/a/k"] ∧
      n ∈ s.root.nodes [] ∧
      (∀ m ∈ (n.2.nodes n.1.above).tail, linked.answers.Apart n.1.above m.1.dir) ∧
      lenient.Returns linked.answers (.ofString "r/a") (.ok t) ∧
      t.root = n.2 ∧ t.skipped.map Skip.path = [.ofString "r/a/k"] := by
  let top := Visit.top (.ofString "r")
  let a := top.child (Utf8.ofString "a")
  let b := top.child (Utf8.ofString "b")
  let k := a.child (Utf8.ofString "k")
  have hnames : subdirectories
      [⟨Utf8.ofString "k", .directory⟩, ⟨Utf8.ofString "w.j", .file⟩]
      = [Utf8.ofString "k"] := sortNames_of_pairwise (by decide)
  have hfiles : lenient.selector.files
      [⟨Utf8.ofString "k", .directory⟩, ⟨Utf8.ofString "w.j", .file⟩]
      = [Utf8.ofString "w.j"] := sortNames_of_pairwise (by decide)
  have htopNames : subdirectories
      [⟨Utf8.ofString "a", .directory⟩, ⟨Utf8.ofString "b", .directory⟩,
        ⟨Utf8.ofString "x.j", .file⟩, ⟨Utf8.ofString "y.j", .file⟩]
      = [Utf8.ofString "a", Utf8.ofString "b"] := sortNames_of_pairwise (by decide)
  have ha : linked.answers.standing a = .expanded _ := rfl
  have hwalk : linked.answers.Walk a [a, k] := by
    refine @SourceTree.Walk.expanded _ a _ [(Utf8.ofString "k", [k])] ha hnames.symm ?_
    intro below hbelow
    rw [List.mem_singleton.mp hbelow]
    exact .closed rfl
  have htopWalk : linked.answers.Walk top [top, a, k, b] := by
    refine @SourceTree.Walk.expanded _ top _
      [(Utf8.ofString "a", [a, k]), (Utf8.ofString "b", [b])] rfl htopNames.symm ?_
    intro below hbelow
    rcases List.mem_pair.mp hbelow with rfl | rfl
    · exact hwalk
    · exact .closed rfl
  obtain ⟨levels, s, hrun, -, -, hpaths⟩ := exists_run?_linked
  have h : lenient.Returns linked.answers (.ofString "r") (.ok s) := ⟨levels, hrun⟩
  have hyields := (returns_ok_iff.mp h).2
  -- the visits of the survey are those of the walk, so `r/a` is the second
  have hvisits : (s.root.nodes []).map Prod.fst = [top, a, k, b] :=
    hyields.walk.unique htopWalk
  obtain ⟨x, rest, hnodes, -, hrest⟩ := List.map_eq_cons_iff.mp hvisits
  obtain ⟨n, after, rfl, hn, -⟩ := List.map_eq_cons_iff.mp hrest
  have hsplit : s.root.nodes [] = [x] ++ n :: after := hnodes
  have hmem : n ∈ s.root.nodes [] := by simp [hnodes]
  obtain ⟨u, hu, hroot, -⟩ := hyields.of_mem_nodes n hmem
  have hbelow : (n.2.nodes n.1.above).map Prod.fst = [a, k] := by
    have huniq := hu.walk
    rw [hroot] at huniq
    rw [hn] at huniq ⊢
    exact huniq.unique hwalk
  have hpath : n.2.path = .ofString "r/a" := by
    rw [← hroot, hu.path, hn]
    rfl
  have hapart : ∀ m ∈ (n.2.nodes n.1.above).tail, linked.answers.Apart n.1.above m.1.dir := by
    intro m hm
    have hk := List.mem_map_of_mem (f := Prod.fst) hm
    rw [List.map_tail, hbelow, List.tail_cons, List.mem_singleton] at hk
    rw [hk, hn]
    intro identity hid above habove other hother
    rw [List.mem_singleton.mp habove] at hother
    cases hid
    cases hother
    decide
  obtain ⟨t, -, ht, htroot, -, hskipped, -⟩ := returns_subtree h hsplit
    (by rw [hn]; rfl) (by rw [hpath]; rfl) hapart
  refine ⟨s, n, t, h, hpaths, hmem, hapart, hpath ▸ ht, htroot, ?_⟩
  rw [hskipped, hbelow]
  simp only [List.flatMap_cons, skipsAt, faultyAt, ha, hfiles]
  rfl

end

end Plan

end KeywordSurvey
