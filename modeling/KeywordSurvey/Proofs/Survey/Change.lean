import Mathlib.Data.List.Pairwise
import Mathlib.Tactic.Abel
import KeywordSurvey.Proofs.Survey.Distinct
import KeywordSurvey.Proofs.Survey.Overflow

/-!
# One file changes

Two trees that differ in the size and the contents of one file
(`SourceTree.AgreeBut`) have the same walks. A walk examines the file once at
most, so its totals change by what the file is worth, or not at all
(`SourceTree.AgreeBut.totalsOver_of_mem`). The walks that examine it are those
that start in its directory or above (`SourceTree.Walk.mem_examined_iff`). So
the reports of these directories change, and no others
(`Plan.returns_changed`).
-/

namespace KeywordSurvey

namespace SourceTree

variable {tree other : SourceTree} {v w : Visit} {visits part : List Visit}

/-! ## Visits below a visit -/

/-- A walk stays below the visit where it starts. -/
theorem Walk.chain_suffix (h : tree.Walk v visits) : ∀ w ∈ visits, v.chain <:+ w.chain := by
  induction h with
  | closed _ =>
    intro w hw
    obtain rfl := List.mem_singleton.mp hw
    exact List.suffix_rfl
  | @expanded v entries below _ _ _ ih =>
    intro w hw
    rcases List.mem_cons.mp hw with rfl | hw
    · exact List.suffix_rfl
    · obtain ⟨b, hb, hw⟩ := List.mem_flatMap.mp hw
      exact (List.suffix_cons (v.child b.1) v.chain).trans (ih b hb w hw)

/-- On the way from the start of a walk to one of its visits, a walk from each
visit in between comes to that visit too. -/
theorem Walk.exists_part (h : tree.Walk v visits) : ∀ w ∈ visits, ∀ u ∈ w.chain,
    u ∈ v.chain.tail ∨ ∃ part, tree.Walk u part ∧ w ∈ part := by
  induction h with
  | @closed v hv =>
    intro w hw u hu
    obtain rfl := List.mem_singleton.mp hw
    rw [w.chain_eq] at hu
    rcases List.mem_cons.mp hu with rfl | hu
    · exact .inr ⟨[u], .closed hv, hw⟩
    · exact .inl hu
  | @expanded v entries below hv hnames hwalks ih =>
    have hwalk : tree.Walk v (v :: below.flatMap Prod.snd) := .expanded hv hnames hwalks
    intro w hw u hu
    -- the walk itself will do for `v`, and nothing is asked for what is above
    have habove : u ∈ v.chain → u ∈ v.chain.tail ∨ ∃ part, tree.Walk u part ∧ w ∈ part := by
      intro hu
      rw [v.chain_eq] at hu
      rcases List.mem_cons.mp hu with rfl | hu
      · exact .inr ⟨_, hwalk, hw⟩
      · exact .inl hu
    rcases List.mem_cons.mp hw with rfl | hbelow
    · exact habove hu
    · obtain ⟨b, hb, hbelow⟩ := List.mem_flatMap.mp hbelow
      rcases ih b hb w hbelow u hu with hu | hpart
      · exact habove hu
      · exact .inr hpart

/-- **What lies below a visit is what it is above of.** Of the visits of a whole
walk, a walk from any visit `w` comes to those that have `w` above them. -/
theorem Walk.mem_iff_mem_chain {root : Path} (h : tree.Walk (Visit.top root) visits)
    (hpart : tree.Walk w part) (hv : v ∈ visits) : v ∈ part ↔ w ∈ v.chain := by
  constructor
  · intro hmem
    refine (hpart.chain_suffix v hmem).subset ?_
    rw [w.chain_eq]
    exact List.mem_cons_self
  · intro hw
    rcases h.exists_part v hv w hw with habove | ⟨other, hother, hmem⟩
    · cases habove
    · rwa [hpart.unique hother]

/-! ## Examined files -/

theorem Walk.nodup_examined (h : tree.Walk v visits) (hnames : tree.WellNamed)
    (selector : Selector) : (visits.flatMap (examinedAt selector tree)).Nodup :=
  (h.nodup_asked hnames selector).sublist
    (List.Sublist.flatMap_right visits fun w _ => List.sublist_cons_self w.dir _)

/-- A file is examined on one visit at most. -/
theorem Walk.eq_of_mem_examinedAt (h : tree.Walk v visits) (hnames : tree.WellNamed)
    {selector : Selector} {file : Path} {u w : Visit} (hu : u ∈ visits) (hw : w ∈ visits)
    (hfile : file ∈ examinedAt selector tree u) (hfile' : file ∈ examinedAt selector tree w) :
    u = w := by
  by_contra hne
  obtain ⟨-, hdisjoint⟩ := List.nodup_flatMap.mp (h.nodup_examined hnames selector)
  have hsymm : Std.Symm (Function.onFun List.Disjoint (examinedAt selector tree)) :=
    ⟨fun _ _ => List.disjoint_symm⟩
  exact hdisjoint.forall hu hw hne hfile hfile'

/-- **A file is examined by the walks from its directory and from those above
it.** -/
theorem Walk.mem_examined_iff {root : Path} {selector : Selector} {file : Path}
    (h : tree.Walk (Visit.top root) visits) (hnames : tree.WellNamed)
    (hpart : tree.Walk w part) (hsub : part ⊆ visits) (hv : v ∈ visits)
    (hfile : file ∈ examinedAt selector tree v) :
    file ∈ part.flatMap (examinedAt selector tree) ↔ w ∈ v.chain := by
  rw [← h.mem_iff_mem_chain hpart hv]
  constructor
  · intro hmem
    obtain ⟨u, hu, hfile'⟩ := List.mem_flatMap.mp hmem
    rwa [← h.eq_of_mem_examinedAt hnames (hsub hu) hv hfile' hfile]
  · intro hmem
    exact List.mem_flatMap.mpr ⟨v, hmem, hfile⟩

end SourceTree

section

variable (selector : Selector) (tree : SourceTree) (v : Visit)

/-- The files that are taken are examined, in another order. -/
theorem perm_examinedAt :
    (examinedAt selector tree v).Perm
      ((takenAt selector tree v).map fun e => v.dir.join e.name) := by
  unfold examinedAt takenAt
  cases tree.standing v with
  | unlisted f => exact .nil
  | cycle => exact .nil
  | expanded entries =>
    have hperm := (selector.perm_files entries).map v.dir.join
    rwa [List.map_map] at hperm

theorem mem_examinedAt_iff {path : Path} :
    path ∈ examinedAt selector tree v ↔
      ∃ e ∈ takenAt selector tree v, v.dir.join e.name = path := by
  rw [(perm_examinedAt selector tree v).mem_iff, List.mem_map]

/-- The totals of some visits are those of the files examined there that can be
read. -/
theorem totalsOver_eq_sum (visits : List Visit) :
    totalsOver selector tree visits
      = Totals.sum (((visits.flatMap (examinedAt selector tree)).filterMap
          tree.readable?).map Totals.ofFile) := by
  have hperm : (visits.flatMap (readableAt selector tree)).Perm
      ((visits.flatMap (examinedAt selector tree)).filterMap tree.readable?) := by
    rw [List.filterMap_flatMap]
    refine List.Perm.flatMap_left visits fun v _ => ?_
    have hone := (perm_examinedAt selector tree v).symm.filterMap tree.readable?
    rwa [List.filterMap_map] at hone
  exact Totals.sum_perm (hperm.map Totals.ofFile)

end

namespace SourceTree

/-! ## Trees that differ in one file -/

/-- The trees give the same answers, except when they are asked for the size or
the contents of the file. -/
structure AgreeBut (tree other : SourceTree) (file : Path) : Prop where
  list : ∀ dir, tree.list dir = other.list dir
  isDirectory : ∀ path, tree.isDirectory path = other.isDirectory path
  identity : ∀ dir, tree.identity dir = other.identity dir
  contents : ∀ path, path ≠ file → tree.contents path = other.contents path
  size : ∀ path, path ≠ file → tree.size path = other.size path

namespace AgreeBut

variable {tree other : SourceTree} {file path : Path} {v : Visit} {visits : List Visit}
variable {selector : Selector}

theorem standing (h : tree.AgreeBut other file) (v : Visit) :
    tree.standing v = other.standing v := by
  have hlineage : tree.lineage v.above = other.lineage v.above := by
    simp only [lineage, h.identity]
  rw [SourceTree.standing, SourceTree.standing, hlineage, h.identity, h.list]

theorem walk (h : tree.AgreeBut other file) (hwalk : tree.Walk v visits) :
    other.Walk v visits := by
  induction hwalk with
  | closed hv => exact .closed (by rwa [← h.standing])
  | expanded hv hnames _ ih => exact .expanded (by rwa [← h.standing]) hnames ih

theorem examinedAt_eq (h : tree.AgreeBut other file) :
    examinedAt selector tree = examinedAt selector other := by
  funext v
  simp only [examinedAt, h.standing]

theorem examine (h : tree.AgreeBut other file) (hne : path ≠ file) :
    tree.examine path = other.examine path := by
  rw [SourceTree.examine, SourceTree.examine, h.size path hne, h.contents path hne]

theorem readable? (h : tree.AgreeBut other file) (hne : path ≠ file) :
    tree.readable? path = other.readable? path := by
  rw [← examine_toOption, ← examine_toOption, h.examine hne]

theorem filterMap_readable? (h : tree.AgreeBut other file) {paths : List Path}
    (hnot : file ∉ paths) :
    paths.filterMap tree.readable? = paths.filterMap other.readable? :=
  List.filterMap_congr fun _ hpath => h.readable? (ne_of_mem_of_not_mem hpath hnot)

theorem totalsOver_of_not_mem (h : tree.AgreeBut other file)
    (hnot : file ∉ visits.flatMap (examinedAt selector tree)) :
    totalsOver selector other visits = totalsOver selector tree visits := by
  rw [totalsOver_eq_sum, totalsOver_eq_sum, ← h.examinedAt_eq, h.filterMap_readable? hnot]

section

variable {old new : SourceFile} (hold : tree.readable? file = some old)
  (hnew : other.readable? file = some new)

include hold hnew

/-- Where the file is examined once, it makes the difference. -/
theorem totalsOver_of_mem (h : tree.AgreeBut other file)
    (hnodup : (visits.flatMap (examinedAt selector tree)).Nodup)
    (hmem : file ∈ visits.flatMap (examinedAt selector tree)) :
    totalsOver selector other visits + Totals.ofFile old
      = totalsOver selector tree visits + Totals.ofFile new := by
  rw [totalsOver_eq_sum, totalsOver_eq_sum, ← h.examinedAt_eq]
  obtain ⟨before, after, hsplit⟩ := List.append_of_mem hmem
  rw [hsplit] at hnodup ⊢
  obtain ⟨hnot, -⟩ := List.nodup_cons.mp (List.nodup_middle.mp hnodup)
  rw [List.mem_append, not_or] at hnot
  rw [List.filterMap_append, List.filterMap_append, List.filterMap_cons_some hold,
    List.filterMap_cons_some hnew, h.filterMap_readable? hnot.1, h.filterMap_readable? hnot.2,
    List.map_append, List.map_append, Totals.sum_append, Totals.sum_append, List.map_cons,
    List.map_cons, Totals.sum_cons, Totals.sum_cons]
  abel

/-- The file can be read in both trees, so nothing fails in one of them only. -/
theorem fault?_eq (h : tree.AgreeBut other file) (path : Path) :
    tree.fault? path = other.fault? path := by
  by_cases hpath : path = file
  · rw [hpath, (tree.readable?_isSome_iff file).mp (by rw [hold]; rfl),
      (other.readable?_isSome_iff file).mp (by rw [hnew]; rfl)]
  · rw [fault?, fault?, h.size path hpath, h.contents path hpath]

theorem skipsAt_eq (h : tree.AgreeBut other file) :
    skipsAt selector tree = skipsAt selector other := by
  funext v
  simp only [skipsAt, faultyAt, h.standing, h.fault?_eq hold hnew]

end

end AgreeBut

end SourceTree

namespace MemoryTree

theorem lookup_bind_of_ne {α β : Type} [DecidableEq α] {key other : α} (hne : other ≠ key)
    (value : β) (all : List (α × β)) : (bind key value all).lookup other = all.lookup other := by
  have hother : (other == key) = false := by simpa using hne
  induction all with
  | nil => rw [bind, List.lookup_cons, hother]
  | cons binding all ih =>
    obtain ⟨k, v⟩ := binding
    rw [bind]
    split
    · next hkey =>
      rw [List.lookup_cons, List.lookup_cons, hkey, hother]
    · rw [List.lookup_cons, List.lookup_cons, ih]

/-- A file that takes the place of another makes no other difference. -/
theorem agreeBut_putFile {t : MemoryTree} {path : Path}
    (h : (t.files.lookup path).isSome = true) (file : SourceFile) :
    t.answers.AgreeBut (t.putFile path file).answers path := by
  have hput : t.putFile path file = { t with files := bind path file t.files } := if_pos h
  have hask : ∀ {α : Type} (question : Question) (pick : SourceFile → α) (p : Path), p ≠ path →
      t.ask question pick p = (t.putFile path file).ask question pick p := by
    intro α question pick p hne
    rw [hput, ask, ask, lookup_bind_of_ne hne]
    rfl
  exact {
    list := fun _ => by rw [hput]; rfl
    isDirectory := fun _ => by rw [hput]; rfl
    identity := fun _ => by rw [hput]; rfl
    contents := hask .contents SourceFile.text
    size := hask .size SourceFile.size }

end MemoryTree

namespace Plan

variable {plan : Plan} {tree other : SourceTree} {file : Path}

theorem examineAll_congr (plan : Plan) {v : Visit} {entries : List Entry}
    (hv : tree.standing v = .expanded entries)
    (h : ∀ path ∈ examinedAt plan.selector tree v, other.examine path = tree.examine path) :
    plan.examineAll other v.dir entries = plan.examineAll tree v.dir entries := by
  refine List.map_congr_left fun name hname => ?_
  have hmem : v.dir.join name ∈ examinedAt plan.selector tree v := by
    rw [examinedAt_of_expanded hv]
    exact List.mem_map_of_mem hname
  simp only [h _ hmem]

/-- Trees that give the same answers on all visits yield the same. -/
theorem Yields.congr {v : Visit} {s : Survey} (h : plan.Yields tree v s)
    (hstanding : ∀ w ∈ (s.root.nodes v.above).map Prod.fst, other.standing w = tree.standing w)
    (hexamine : ∀ w ∈ (s.root.nodes v.above).map Prod.fst,
      ∀ path ∈ examinedAt plan.selector tree w, other.examine path = tree.examine path) :
    plan.Yields other v s := by
  induction h with
  | @cycle v hv => exact .cycle ((hstanding v (by simp)).trans hv)
  | @unlisted v _ _ hv habove htol =>
    exact .unlisted ((hstanding v (by simp)).trans hv) habove htol
  | @expanded v entries own below s hv hown hnames _ hs ih =>
    rw [visits_expanded hs, List.forall_mem_cons] at hstanding hexamine
    refine .expanded (hstanding.1.trans hv) ?_ hnames (fun b hb => ?_) hs
    · rwa [plan.examineAll_congr hv hexamine.1]
    · have hbelow : ∀ w ∈ (b.2.root.nodes (v.child b.1).above).map Prod.fst, w ∈ below.flatMap
          fun b => (b.2.root.nodes (v.child b.1).above).map Prod.fst := fun w hw =>
        List.mem_flatMap.mpr ⟨b, hb, hw⟩
      exact ih b hb (fun w hw => hstanding.2 w (hbelow w hw)) fun w hw =>
        hexamine.2 w (hbelow w hw)

/-- Where the file is not examined, the trees yield the same. -/
theorem Yields.of_agreeBut (hagree : tree.AgreeBut other file) {v : Visit} {s : Survey}
    (h : plan.Yields tree v s)
    (hnot : ∀ w ∈ (s.root.nodes v.above).map Prod.fst, file ∉ examinedAt plan.selector tree w) :
    plan.Yields other v s :=
  h.congr (fun w _ => (hagree.standing w).symm) fun w hw _ hpath =>
    (hagree.examine (ne_of_mem_of_not_mem hpath (hnot w hw))).symm

/-- A survey that the one tree yields, the other one yields as well, changed or
not, unless its totals do not fit. -/
theorem Yields.exists_of_agreeBut (hagree : tree.AgreeBut other file) {old new : SourceFile}
    (hold : tree.readable? file = some old) (hnew : other.readable? file = some new)
    {v : Visit} {s : Survey} (h : plan.Yields tree v s)
    (hfits : (totalsOver plan.selector other ((s.root.nodes v.above).map Prod.fst)).Fits) :
    ∃ s', plan.Yields other v s' := by
  have hclear : ∀ w ∈ (s.root.nodes v.above).map Prod.fst, plan.fatalAt other w = [] := by
    have hhead := h.firstFatal.unique (.of_walk h.walk)
    intro w hw
    rw [← List.flatMap_eq_nil_iff.mp (List.head?_eq_none_iff.mp hhead.symm) w hw]
    simp only [fatalAt, hagree.standing, hagree.fault?_eq hold hnew]
  obtain ⟨s', hs', -⟩ := exists_yields (hagree.walk h.walk) hclear hfits
  exact ⟨s', hs'⟩

theorem Yields.mem_nodes_self {v : Visit} {s : Survey} (h : plan.Yields tree v s) :
    (v, s.root) ∈ s.root.nodes v.above := by
  rw [Folder.nodes_eq, h.path]
  exact List.mem_cons_self

/-- The report of a directory has the totals of the walk that starts there. -/
theorem Yields.exact_of_mem_nodes {v : Visit} {s : Survey} (h : plan.Yields tree v s)
    {n : Visit × Folder} (hn : n ∈ s.root.nodes v.above) {part : List Visit}
    (hpart : tree.Walk n.1 part) :
    n.2.report.exact = totalsOver plan.selector tree part ∧
      part ⊆ (s.root.nodes v.above).map Prod.fst := by
  obtain ⟨t, ht, hroot, hin⟩ := h.of_mem_nodes n hn
  have hvisits := ht.walk.unique hpart
  have hreport := ht.report_flat
  rw [hvisits, hroot] at hreport
  rw [hroot] at hvisits
  exact ⟨hreport, hvisits ▸ (hin.map Prod.fst).subset⟩

variable {root : Path} {old new : SourceFile} {s s' : Survey}

/-- **One file changes its directory and those above it.** Let two trees differ
in the size and the contents of one file that can be read in both, let the
listings hold names, and none of them twice, and let runs over both trees
return surveys. Then these have the same directories in the same places, and
leave out the same paths. If the file is one of those taken in a directory `m`,
then in the reports of `m` and of the directories above it the new file stands
for the old one, in each of the six totals; all other reports are the same. If
it is taken in no directory of the survey, then the surveys are the same. -/
theorem returns_changed (hnames : tree.WellNamed) (hagree : tree.AgreeBut other file)
    (hold : tree.readable? file = some old) (hnew : other.readable? file = some new)
    (h : plan.Returns tree root (.ok s)) (h' : plan.Returns other root (.ok s')) :
    (s'.root.nodes []).map Prod.fst = (s.root.nodes []).map Prod.fst ∧
    s'.skipped = s.skipped ∧
    (∀ m ∈ s.root.nodes [], ∀ e ∈ takenAt plan.selector tree m.1,
      m.2.path.join e.name = file →
        ∀ n ∈ s.root.nodes [], ∀ n' ∈ s'.root.nodes [], n'.1 = n.1 →
          (n.1 ∈ m.1.chain →
            n'.2.report.exact + Totals.ofFile old = n.2.report.exact + Totals.ofFile new) ∧
          (n.1 ∉ m.1.chain → n'.2.report = n.2.report)) ∧
    ((∀ m ∈ s.root.nodes [], ∀ e ∈ takenAt plan.selector tree m.1,
      m.2.path.join e.name ≠ file) → s' = s) := by
  obtain ⟨hroot, hyields⟩ := returns_ok_iff.mp h
  have hyields' := (returns_ok_iff.mp h').2
  have hpath := hyields.path_of_mem_nodes
  have hvisits : (s'.root.nodes []).map Prod.fst = (s.root.nodes []).map Prod.fst :=
    hyields'.walk.unique (hagree.walk hyields.walk)
  refine ⟨hvisits, ?_, fun m hm e he hfile n hn n' hn' heq => ?_, fun hnot => ?_⟩
  · rw [hyields.skipped_eq, hyields'.skipped_eq, ← hagree.skipsAt_eq hold hnew]
    exact congrArg (List.flatMap _) hvisits
  · obtain ⟨t, ht, -, -⟩ := hyields.of_mem_nodes n hn
    have hpart := ht.walk
    generalize (t.root.nodes n.1.above).map Prod.fst = part at hpart
    obtain ⟨hreport, hsub⟩ := hyields.exact_of_mem_nodes hn hpart
    obtain ⟨hreport', -⟩ := hyields'.exact_of_mem_nodes hn' (heq ▸ hagree.walk hpart)
    have hmem : m.1 ∈ (s.root.nodes []).map Prod.fst := List.mem_map_of_mem hm
    have hexamined : file ∈ examinedAt plan.selector tree m.1 := by
      rw [mem_examinedAt_iff, ← hpath m hm]
      exact ⟨e, he, hfile⟩
    have hiff := hyields.walk.mem_examined_iff hnames hpart hsub hmem hexamined
    refine ⟨fun hchain => ?_, fun hchain => Report.exact_injective ?_⟩
    · rw [hreport, hreport']
      exact hagree.totalsOver_of_mem hold hnew (hpart.nodup_examined hnames plan.selector)
        (hiff.mpr hchain)
    · rw [hreport, hreport']
      exact hagree.totalsOver_of_not_mem (mt hiff.mp hchain)
  · have hsame := hyields.of_agreeBut hagree fun w hw hfile => ?_
    · have hreturns := returns_ok_iff.mpr ⟨(hagree.isDirectory root).symm.trans hroot, hsame⟩
      exact Except.ok.inj (h'.unique hreturns)
    · obtain ⟨m, hm, rfl⟩ := List.mem_map.mp hw
      obtain ⟨e, he, hfile⟩ := (mem_examinedAt_iff plan.selector tree m.1).mp hfile
      refine hnot m hm e he ?_
      rw [hpath m hm, hfile]

section

open MemoryTree

/-- The directories `r` and `r/a`, with a file in `r/a`. The directory `r/b`
cannot be listed. -/
def forked : MemoryTree where
  directories := [
    (.ofString "r", [⟨Utf8.ofString "a", .directory⟩, ⟨Utf8.ofString "b", .directory⟩]),
    (.ofString "r/a", [⟨Utf8.ofString "w.j", .file⟩])]
  files := [(.ofString "r/a/w.j", ⟨⟨6, by decide⟩, Utf8.ofString "// try"⟩)]
  aliases := []
  planned := []

/-- Another file in its place. -/
def rewritten : MemoryTree :=
  forked.putFile (.ofString "r/a/w.j") ⟨⟨8, by decide⟩, Utf8.ofString "try more"⟩

/-- It visits the three directories and leaves one of them out. -/
theorem exists_yields_forked : ∃ s, lenient.Yields forked.answers (Visit.top (.ofString "r")) s ∧
    (s.root.nodes []).map Prod.fst
      = [Visit.top (.ofString "r"), (Visit.top (.ofString "r")).child (Utf8.ofString "a"),
        (Visit.top (.ofString "r")).child (Utf8.ofString "b")] ∧
    s.skipped.map Skip.path = [.ofString "r/b"] := by
  let top := Visit.top (.ofString "r")
  let a := top.child (Utf8.ofString "a")
  let b := top.child (Utf8.ofString "b")
  have hnames : subdirectories [⟨Utf8.ofString "a", .directory⟩, ⟨Utf8.ofString "b", .directory⟩]
      = [Utf8.ofString "a", Utf8.ofString "b"] := sortNames_of_pairwise (by decide)
  have hfiles : lenient.selector.files
      [⟨Utf8.ofString "a", .directory⟩, ⟨Utf8.ofString "b", .directory⟩] = [] :=
    sortNames_of_pairwise .nil
  have hnamesBelow : subdirectories [⟨Utf8.ofString "w.j", .file⟩] = [] :=
    sortNames_of_pairwise .nil
  have hfilesBelow : lenient.selector.files [⟨Utf8.ofString "w.j", .file⟩]
      = [Utf8.ofString "w.j"] := sortNames_of_pairwise (by decide)
  have htop : forked.answers.standing top = .expanded _ := rfl
  have ha : forked.answers.standing a = .expanded _ := rfl
  have hwalk : forked.answers.Walk top [top, a, b] := by
    refine @SourceTree.Walk.expanded _ top _
      [(Utf8.ofString "a", [a]), (Utf8.ofString "b", [b])] htop hnames.symm fun below hbelow => ?_
    rcases List.mem_pair.mp hbelow with rfl | rfl
    · exact @SourceTree.Walk.expanded _ a _ [] ha hnamesBelow.symm (by simp)
    · exact .closed rfl
  have hclear : [top, a, b].flatMap (lenient.fatalAt forked.answers) = [] := by
    simp only [List.flatMap_cons, fatalAt, htop, ha, hfiles, hfilesBelow]
    rfl
  have hfits : (totalsOver lenient.selector forked.answers [top, a, b]).Fits :=
    ⟨by decide +kernel, fun k => by cases k <;> decide +kernel, by decide +kernel⟩
  obtain ⟨s, hs, -⟩ := exists_yields hwalk (List.flatMap_eq_nil_iff.mp hclear) hfits
  have hvisits : (s.root.nodes []).map Prod.fst = [top, a, b] := hs.walk.unique hwalk
  have hskipped : s.skipped = [top, a, b].flatMap (skipsAt lenient.selector forked.answers) :=
    hvisits ▸ hs.skipped_eq
  refine ⟨s, hs, hvisits, ?_⟩
  rw [hskipped]
  simp only [List.flatMap_cons, skipsAt, faultyAt, htop, ha, hfiles, hfilesBelow]
  rfl

/-- The keyword that leaves the comment is counted for `r`, and `r/b` is left
out as before. -/
theorem returns_changed_forked : ∃ s s',
    lenient.Returns forked.answers (.ofString "r") (.ok s) ∧
      lenient.Returns rewritten.answers (.ofString "r") (.ok s') ∧
      s.skipped.map Skip.path = [.ofString "r/b"] ∧ s'.skipped = s.skipped ∧
      s'.root.report.exact + ⟨6, 0, 1⟩ = s.root.report.exact + ⟨8, ⟨0, 0, 1, 0⟩, 1⟩ := by
  obtain ⟨s, hs, hvisits, hskipped⟩ := exists_yields_forked
  have hagree : forked.answers.AgreeBut rewritten.answers (.ofString "r/a/w.j") :=
    agreeBut_putFile rfl _
  obtain ⟨s', hs'⟩ := hs.exists_of_agreeBut hagree rfl rfl (by
    rw [Visit.top, hvisits]
    exact ⟨by decide +kernel, fun k => by cases k <;> decide +kernel, by decide +kernel⟩)
  have hreturns : lenient.Returns forked.answers (.ofString "r") (.ok s) :=
    returns_ok_iff.mpr ⟨rfl, hs⟩
  have hreturns' : lenient.Returns rewritten.answers (.ofString "r") (.ok s') :=
    returns_ok_iff.mpr ⟨rfl, hs'⟩
  obtain ⟨-, hskips, hreports, -⟩ := returns_changed
    (wellNamed_answers (by decide) (by decide)) hagree rfl rfl hreturns hreturns'
  -- the file is taken in `r/a`, which has `r` above it
  let top := Visit.top (.ofString "r")
  let a := top.child (Utf8.ofString "a")
  obtain ⟨m, hm, hma⟩ : ∃ m ∈ s.root.nodes [], m.1 = a := by
    have hmem : a ∈ (s.root.nodes []).map Prod.fst := by simp [hvisits, a, top]
    exact List.mem_map.mp hmem
  have hfile : m.2.path.join (Utf8.ofString "w.j") = .ofString "r/a/w.j" := by
    rw [hs.path_of_mem_nodes m hm, hma]
    rfl
  have htaken : (⟨Utf8.ofString "w.j", .file⟩ : Entry)
      ∈ takenAt lenient.selector forked.answers m.1 := by
    rw [hma]
    decide
  obtain ⟨hchanged, -⟩ := hreports m hm _ htaken hfile (top, s.root) hs.mem_nodes_self
    (top, s'.root) hs'.mem_nodes_self rfl
  have hchain : top ∈ m.1.chain := by
    rw [hma]
    exact List.mem_cons_of_mem a List.mem_cons_self
  exact ⟨s, s', hreturns, hreturns', hskipped, hskips, hchanged hchain⟩

end

end Plan

end KeywordSurvey
