import KeywordSurvey.Proofs.Survey.Change
import KeywordSurvey.Proofs.Survey.Repair

/-!
# Links that lead back

A link that leads back to the directory it lies in, or to one above it, is met
and left alone: the survey of a tree that gains such a link gains an empty leaf
in its place, and nothing else (`Plan.returns_grafted`).

Of the walk the link changes one listing, and the visit of the link is added to
it (`SourceTree.Gains.standing_link`). No other visit asks about the path of
the link, so all other answers stay (`SourceTree.Gains.standing_eq`). A leaf
adds nothing to the sums of the directories above it (`Plan.Yields.grafted`).
-/

namespace KeywordSurvey

/-! ## Leaves in a folder -/

/-- A name in a directory, and how a walk comes to that directory. -/
structure Link where
  visit : Visit
  name : Bytes

namespace Link

def path (link : Link) : Path := link.visit.dir.join link.name

/-- The entry of the link in its directory. -/
def entry (link : Link) : Entry := ⟨link.name, .directory⟩

end Link

namespace Folder

/-- Under the directories `above`, the second folder is the first one with one
leaf more: the leaf of the link, among the children of the directory of the
link, before those with larger names and after those with smaller ones. -/
inductive Grafted (link : Link) : List Path → Folder → Folder → Prop
  | here {report : Report} {before after : List Folder} :
      (∀ c ∈ before, ∃ name, name < link.name ∧ c.path = link.visit.dir.join name) →
      (∀ c ∈ after, ∃ name, link.name < name ∧ c.path = link.visit.dir.join name) →
      Grafted link link.visit.above (mk link.visit.dir report (before ++ after))
        (mk link.visit.dir report (before ++ leaf link.path :: after))
  | deeper {above : List Path} {path : Path} {report : Report} {before after : List Folder}
      {child child' : Folder} :
      Grafted link (path :: above) child child' →
      Grafted link above (mk path report (before ++ child :: after))
        (mk path report (before ++ child' :: after))

@[simp] theorem report_leaf (dir : Path) : (leaf dir).report = Report.empty := rfl

/-- One leaf after the other is put in. -/
inductive GraftedAll : List Link → Folder → Folder → Prop
  | nil {folder : Folder} : GraftedAll [] folder folder
  | cons {link : Link} {links : List Link} {folder between other : Folder} :
      Grafted link [] folder between → GraftedAll links between other →
      GraftedAll (link :: links) folder other

namespace Grafted

variable {link : Link} {above : List Path} {folder other : Folder}

/-- The leaf adds nothing. -/
theorem report_eq (h : Grafted link above folder other) : other.report = folder.report := by
  cases h <;> rfl

/-- No directory is lost, and none comes before another than it did. -/
theorem visits_sublist (h : Grafted link above folder other) :
    ((folder.nodes above).map Prod.fst).Sublist ((other.nodes above).map Prod.fst) := by
  induction h with
  | here _ _ =>
    rw [nodes_eq, nodes_eq, List.map_cons, List.map_cons]
    simp only [children, List.flatMap_append, List.flatMap_cons, List.map_append]
    exact ((List.sublist_append_right _ _).append_left _).cons_cons _
  | deeper _ ih =>
    rw [nodes_eq, nodes_eq, List.map_cons, List.map_cons]
    simp only [children, List.flatMap_append, List.flatMap_cons, List.map_append]
    exact ((ih.append_right _).append_left _).cons_cons _

end Grafted

end Folder

/-! ## Names in order -/

/-- A name that is not there has its place among names in order. -/
theorem exists_place {names : List Bytes} {name : Bytes} (h : names.Pairwise (· < ·))
    (hname : name ∉ names) :
    ∃ before after, names = before ++ after ∧ (before ++ name :: after).Pairwise (· < ·) := by
  induction names with
  | nil => exact ⟨[], [], rfl, List.pairwise_singleton _ _⟩
  | cons first names ih =>
    obtain ⟨hfirst, hnames⟩ := List.pairwise_cons.mp h
    rw [List.mem_cons, not_or] at hname
    by_cases hlt : first < name
    · obtain ⟨before, after, rfl, hplace⟩ := ih hnames hname.2
      refine ⟨first :: before, after, rfl, List.pairwise_cons.mpr ⟨fun n hn => ?_, hplace⟩⟩
      rcases List.mem_cons.mp (List.perm_middle.mem_iff.mp hn) with rfl | hn
      · exact hlt
      · exact hfirst n hn
    · have hgt : name < first := (List.le_iff_lt_or_eq.mp hlt).resolve_right hname.1
      refine ⟨[], first :: names, rfl, List.pairwise_cons.mpr ⟨?_, h⟩⟩
      exact List.forall_mem_cons.mpr ⟨hgt, fun n hn => List.lt_trans hgt (hfirst n hn)⟩

/-- A directory more among the entries takes its place among the names. -/
theorem exists_subdirectories_insert {first second : List Entry} {e : Entry}
    (he : e.kind = .directory) (hnodup : ((first ++ second).map Entry.name).Nodup)
    (hnew : ∀ e' ∈ first ++ second, e'.name ≠ e.name) :
    ∃ before after, subdirectories (first ++ second) = before ++ after ∧
      subdirectories (first ++ e :: second) = before ++ e.name :: after ∧
      (before ++ e.name :: after).Pairwise (· < ·) := by
  have hnot : e.name ∉ subdirectories (first ++ second) := fun hmem => by
    obtain ⟨e', he', -, hname⟩ := mem_subdirectories_iff.mp hmem
    exact hnew e' he' hname
  obtain ⟨before, after, hsplit, hplace⟩ := exists_place (pairwise_subdirectories hnodup) hnot
  refine ⟨before, after, hsplit, ?_, hplace⟩
  refine sortNames_eq_of_perm ?_ (hplace.imp fun hlt => decide_eq_true (List.le_of_lt hlt))
  have hperm : ((first ++ e :: second).filter fun e => e.kind == .directory).Perm
      (e :: (first ++ second).filter fun e => e.kind == .directory) := by
    rw [← List.filter_cons_of_pos (by simp [he])]
    exact List.perm_middle.filter _
  refine (hperm.map Entry.name).trans (.trans ?_ List.perm_middle.symm)
  rw [List.map_cons, ← hsplit]
  exact (perm_subdirectories (first ++ second)).symm.cons _

theorem Selector.files_insert (selector : Selector) (first second : List Entry) {e : Entry}
    (he : e.kind = .directory) :
    selector.files (first ++ e :: second) = selector.files (first ++ second) := by
  rw [files, files, List.filter_append, List.filter_append,
    List.filter_cons_of_neg (by simp [Selector.takes_of_directory he])]

namespace SourceTree

/-! ## Walks and paths -/

section

variable {tree : SourceTree} {v : Visit} {visits : List Visit}

theorem Walk.nodup_dirs (h : tree.Walk v visits) (hnames : tree.WellNamed) :
    (visits.map Visit.dir).Nodup := by
  refine (h.nodup_asked hnames ⟨".", by decide⟩).sublist ?_
  rw [List.map_eq_flatMap]
  exact List.Sublist.flatMap_right visits fun w _ => (List.nil_sublist _).cons_cons w.dir

theorem Walk.dir_under (h : tree.Walk v visits) (hnames : tree.WellNamed) :
    ∀ w ∈ visits, w.dir.Under v.dir := by
  intro w hw
  obtain ⟨names, hall, -, hdir⟩ := h.descent hnames w hw
  exact ⟨names, hall, hdir⟩

/-- The directories above a visit are visited too, from where the walk starts. -/
theorem Walk.above_subset (h : tree.Walk v visits) :
    ∀ w ∈ visits, w.above ⊆ v.above ++ visits.map Visit.dir := by
  induction h with
  | closed _ =>
    intro w hw
    rw [List.mem_singleton.mp hw]
    exact List.subset_append_left _ _
  | @expanded v entries below _ _ _ ih =>
    intro w hw dir hdir
    rcases List.mem_cons.mp hw with rfl | hw
    · exact List.mem_append_left _ hdir
    · obtain ⟨b, hb, hw⟩ := List.mem_flatMap.mp hw
      have hmem := ih b hb w hw hdir
      rw [Visit.above_child, List.cons_append, List.mem_cons, List.mem_append] at hmem
      rw [List.mem_append, List.map_cons, List.mem_cons]
      rcases hmem with rfl | habove | hbelow
      · exact .inr (.inl rfl)
      · exact .inl habove
      · refine .inr (.inr ?_)
        rw [List.map_flatMap]
        exact List.mem_flatMap.mpr ⟨b, hb, hbelow⟩

/-- A name that a directory does not list leads to no directory of the walk. -/
theorem Walk.join_not_mem (h : tree.Walk v visits) (hnames : tree.WellNamed) {w : Visit}
    {entries : List Entry} {name : Bytes} (hw : w ∈ visits)
    (hstanding : tree.standing w = .expanded entries) (hname : IsName name)
    (hnew : ∀ e ∈ entries, e.name ≠ name) : w.dir.join name ∉ visits.map Visit.dir := by
  induction h with
  | closed hclosed =>
    rw [List.mem_singleton.mp hw] at hstanding
    simp [hstanding] at hclosed
  | @expanded v others below hv hbelow hwalks ih =>
    have hlist := list_of_expanded hv
    have hmem : ∀ b ∈ below, b.1 ∈ subdirectories others := fun b hb =>
      hbelow ▸ List.mem_map_of_mem hb
    have hunder : ∀ b ∈ below, ∀ u ∈ b.2, u.dir.Under (v.dir.join b.1) := fun b hb =>
      (hwalks b hb).dir_under hnames
    intro hdir
    obtain ⟨u, hu, heq⟩ := List.mem_map.mp hdir
    rcases List.mem_cons.mp hw with rfl | hw
    · -- the name would be that of a subdirectory
      obtain rfl := Standing.expanded.inj (hv.symm.trans hstanding)
      rcases List.mem_cons.mp hu with rfl | hu
      · have hself : u.dir.Under (u.dir.join name) := by
          rw [← heq]
          exact .refl _
        exact Path.not_under_join hname hself
      · obtain ⟨b, hb, hu⟩ := List.mem_flatMap.mp hu
        have hsame := Path.Under.name_eq (hnames.isName_subdirectory hlist (hmem b hb)) hname
          (hunder b hb u hu) (heq ▸ .refl _)
        obtain ⟨e, he, -, hne⟩ := mem_subdirectories_iff.mp (hmem b hb)
        exact hnew e he (hne.trans hsame)
    · obtain ⟨b, hb, hw⟩ := List.mem_flatMap.mp hw
      have hbname := hnames.isName_subdirectory hlist (hmem b hb)
      have hjoin : (w.dir.join name).Under (v.dir.join b.1) := (hunder b hb w hw).join hname
      rcases List.mem_cons.mp hu with rfl | hu
      · exact Path.not_under_join hbname (heq ▸ hjoin)
      · obtain ⟨c, hc, hu⟩ := List.mem_flatMap.mp hu
        have hsame := Path.Under.name_eq (hnames.isName_subdirectory hlist (hmem c hc)) hbname
          (hunder c hc u hu) (heq ▸ hjoin)
        have hnodup : (below.map Prod.fst).Nodup :=
          hbelow ▸ nodup_subdirectories (hnames.nodup hlist)
        obtain rfl := List.inj_on_of_nodup_map hnodup hc hb hsame
        exact ih c hc hw (List.mem_map.mpr ⟨u, hu, heq⟩)

end

/-! ## Trees that gain a link -/

/-- The second tree is the first one with a link more: at some place in the
listing of its directory, under a name that was not there, and with the identity
of that directory or of one above it. All other answers are the same. -/
structure Gains (tree : SourceTree) (link : Link) (other : SourceTree) : Prop where
  isName : IsName link.name
  listed : ∃ before after, tree.list link.visit.dir = .ok (before ++ after) ∧
    other.list link.visit.dir = .ok (before ++ link.entry :: after) ∧
    ∀ e ∈ before ++ after, e.name ≠ link.name
  leadsBack : ∃ dir ∈ link.visit.dir :: link.visit.above, ∃ identity,
    tree.identity dir = .ok identity ∧ other.identity link.path = .ok identity
  list : ∀ dir, dir ≠ link.visit.dir → other.list dir = tree.list dir
  identity : ∀ dir, dir ≠ link.path → other.identity dir = tree.identity dir
  isDirectory : ∀ path, other.isDirectory path = tree.isDirectory path
  contents : ∀ path, other.contents path = tree.contents path
  size : ∀ path, other.size path = tree.size path

/-- One link after the other is added. -/
inductive GainsAll : SourceTree → List Link → SourceTree → Prop
  | nil {tree : SourceTree} : GainsAll tree [] tree
  | cons {link : Link} {links : List Link} {tree between other : SourceTree} :
      tree.Gains link between → GainsAll between links other →
      GainsAll tree (link :: links) other

namespace Gains

variable {tree other : SourceTree} {link : Link}

theorem wellNamed (h : tree.Gains link other) (hnames : tree.WellNamed) : other.WellNamed := by
  obtain ⟨before, after, hlist, hlist', hnew⟩ := h.listed
  constructor
  · intro dir entries hentries
    by_cases hdir : dir = link.visit.dir
    · rw [hdir, hlist', Except.ok.injEq] at hentries
      intro e he
      rw [← hentries] at he
      rcases List.mem_cons.mp (List.perm_middle.mem_iff.mp he) with rfl | he
      · exact h.isName
      · exact hnames.isName hlist e he
    · exact hnames.isName ((h.list dir hdir).symm.trans hentries)
  · intro dir entries hentries
    by_cases hdir : dir = link.visit.dir
    · rw [hdir, hlist', Except.ok.injEq] at hentries
      rw [← hentries, List.map_append, List.map_cons, List.nodup_middle, List.nodup_cons,
        ← List.map_append, List.mem_map]
      exact ⟨fun ⟨e, he, heq⟩ => hnew e he heq, hnames.nodup hlist⟩
    · exact hnames.nodup ((h.list dir hdir).symm.trans hentries)

theorem examine (h : tree.Gains link other) (path : Path) :
    other.examine path = tree.examine path := by
  rw [SourceTree.examine, SourceTree.examine, h.size, h.contents]

variable {w : Visit}

theorem lineage_eq (h : tree.Gains link other) (habove : link.path ∉ w.above) :
    other.lineage w.above = tree.lineage w.above :=
  List.filterMap_congr fun dir hdir => by
    rw [h.identity dir (ne_of_mem_of_not_mem hdir habove)]

/-- Where the link is not asked for, it makes no difference. -/
theorem standing_eq (h : tree.Gains link other) (habove : link.path ∉ w.dir :: w.above)
    (hdir : w.dir ≠ link.visit.dir) : other.standing w = tree.standing w := by
  rw [List.mem_cons, not_or] at habove
  rw [standing, standing, h.lineage_eq habove.2, h.list w.dir hdir,
    h.identity w.dir (Ne.symm habove.1)]

/-- The directory of the link is expanded as before, and lists the link too. -/
theorem standing_self (h : tree.Gains link other)
    (habove : link.path ∉ link.visit.dir :: link.visit.above)
    (hself : (tree.standing link.visit).isExpanded = true) :
    ∃ before after, tree.standing link.visit = .expanded (before ++ after) ∧
      other.standing link.visit = .expanded (before ++ link.entry :: after) ∧
      ∀ e ∈ before ++ after, e.name ≠ link.name := by
  obtain ⟨before, after, hlist, hlist', hnew⟩ := h.listed
  obtain ⟨entries, hself⟩ := Standing.isExpanded_iff.mp hself
  obtain rfl := Except.ok.inj (hlist.symm.trans (list_of_expanded hself))
  refine ⟨before, after, hself, ?_, hnew⟩
  obtain ⟨identity, hid, -, hother⟩ := standing_eq_expanded_iff.mp hself
  rw [List.mem_cons, not_or] at habove
  refine standing_eq_expanded_iff.mpr ⟨identity, ?_, hlist', fun dir hdir o ho => ?_⟩
  · rw [h.identity _ (Ne.symm habove.1), hid]
  · exact hother dir hdir o (h.identity dir (ne_of_mem_of_not_mem hdir habove.2) ▸ ho)

/-- The link itself is met as one of the directories above it. -/
theorem standing_link (h : tree.Gains link other)
    (habove : link.path ∉ link.visit.dir :: link.visit.above) :
    other.standing (link.visit.child link.name) = .cycle := by
  obtain ⟨dir, hdir, identity, hid, hlink⟩ := h.leadsBack
  refine standing_eq_cycle_iff.mpr ⟨identity, hlink, ?_⟩
  refine List.any_eq_true.mpr ⟨identity, ?_, Path.same_refl identity⟩
  refine mem_lineage.mpr ⟨dir, hdir, ?_⟩
  rw [h.identity dir (ne_of_mem_of_not_mem hdir habove), hid]

end Gains

end SourceTree

namespace Exploration

variable {dir : Path} {own : Report × List Skip} {below : List Survey} {s : Survey}

theorem root_of_combine (h : combine dir own below = .ok s) :
    s.root = .mk dir s.root.report (below.map Survey.root) := by
  obtain ⟨hpath, hchildren, -, -⟩ := combine_eq_ok h
  rw [← hpath, ← hchildren]
  cases s.root
  rfl

/-- Other subdirectories with the same totals make the same report. -/
theorem combine_congr (h : combine dir own below = .ok s) (below' : List Survey)
    (hsum : Totals.sum (below'.map fun b => b.root.report.exact)
      = Totals.sum (below.map fun b => b.root.report.exact))
    (hskipped : below'.flatMap Survey.skipped = below.flatMap Survey.skipped) :
    combine dir own below'
      = .ok ⟨.mk dir s.root.report (below'.map Survey.root), s.skipped⟩ := by
  obtain ⟨hfolder, hs⟩ := combine_eq_ok_iff.mp h
  obtain ⟨sum, total, hbelow, htotal, hroot⟩ := Folder.assemble?_eq_some_iff.mp hfolder
  refine combine_eq_ok_iff.mpr ⟨Folder.assemble?_eq_some_iff.mpr ⟨sum, total, ?_, htotal, ?_⟩, ?_⟩
  · rw [Report.sum?_eq_some_iff, List.map_map, List.map_map] at hbelow ⊢
    exact hbelow.trans hsum.symm
  · rw [hroot]
    rfl
  · rw [hs, hskipped]

end Exploration

namespace Plan

variable {plan : Plan} {tree other : SourceTree} {link : Link} {v : Visit} {s : Survey}

section

variable (hgains : tree.Gains link other) (hnames : tree.WellNamed)
  (hself : (tree.standing link.visit).isExpanded = true)
  (habove : link.path ∉ link.visit.dir :: link.visit.above)

include hgains hnames hself habove

/-- What the directory of the link yields gains a leaf. -/
theorem Yields.grafted_here (h : plan.Yields tree link.visit s)
    (hstanding : ∀ w ∈ ((s.root.nodes link.visit.above).map Prod.fst).tail,
      other.standing w = tree.standing w) :
    ∃ s', plan.Yields other link.visit s' ∧ s'.skipped = s.skipped ∧
      Folder.Grafted link link.visit.above s.root s'.root := by
  obtain ⟨before, after, hself, hself', hnew⟩ := hgains.standing_self habove hself
  cases h with
  | cycle hv | unlisted hv => simp [hself] at hv
  | @expanded _ entries own below _ hv hown hbelow hyields hs =>
    obtain rfl := Standing.expanded.inj (hself.symm.trans hv)
    rw [visits_expanded hs, List.tail_cons] at hstanding
    -- the link has its place among the subdirectories
    obtain ⟨first, second, hsplit, hinsert, hplace⟩ := exists_subdirectories_insert
      (e := link.entry) rfl (hnames.nodup (SourceTree.list_of_expanded hv)) hnew
    obtain ⟨smaller, larger, rfl, rfl, rfl⟩ := List.map_eq_append_iff.mp (hbelow.trans hsplit)
    let leaf : Bytes × Survey := (link.name, ⟨Folder.leaf link.path, []⟩)
    have hcombine := Exploration.combine_congr hs ((smaller ++ leaf :: larger).map Prod.snd)
      (by simp [leaf, Totals.sum_append]) (by simp [leaf])
    refine ⟨_, .expanded hself' ?_ ?_ (fun b hb => ?_) hcombine, rfl, ?_⟩
    · rwa [examineAll, Selector.files_insert _ _ _ rfl, ← examineAll,
        plan.examineAll_congr hv fun path _ => hgains.examine path]
    · rw [hinsert, List.map_append, List.map_cons]
      rfl
    · rcases List.mem_cons.mp (List.perm_middle.mem_iff.mp hb) with rfl | hb
      · exact .cycle (hgains.standing_link habove)
      · exact (hyields b hb).congr
          (fun w hw => hstanding w (List.mem_flatMap.mpr ⟨b, hb, hw⟩))
          fun _ _ path _ => hgains.examine path
    · obtain ⟨-, hlarger, hsmaller⟩ := List.pairwise_append.mp hplace
      rw [List.pairwise_cons] at hlarger
      rw [List.forall_mem_append] at hyields
      rw [Exploration.root_of_combine hs]
      simp only [List.map_append, List.map_cons]
      refine .here ?_ ?_
      · simp only [List.forall_mem_map]
        exact fun b hb => ⟨b.1, hsmaller b.1 (List.mem_map_of_mem hb) _ List.mem_cons_self,
          (hyields.1 b hb).path⟩
      · simp only [List.forall_mem_map]
        exact fun b hb => ⟨b.1, hlarger.1 b.1 (List.mem_map_of_mem hb), (hyields.2 b hb).path⟩

/-- **What a walk yields gains a leaf** where it comes to the directory of the
link. The directories above that one are put together from the same sums as
before. -/
theorem Yields.grafted (h : plan.Yields tree v s)
    (hmem : link.visit ∈ (s.root.nodes v.above).map Prod.fst)
    (hnodup : ((s.root.nodes v.above).map Prod.fst).Nodup)
    (hstanding : ∀ w ∈ (s.root.nodes v.above).map Prod.fst, w ≠ link.visit →
      other.standing w = tree.standing w) :
    ∃ s', plan.Yields other v s' ∧ s'.skipped = s.skipped ∧
      Folder.Grafted link v.above s.root s'.root := by
  induction h with
  | @cycle v hv | @unlisted v _ _ hv =>
    rw [Folder.nodes_leaf, List.map_singleton, List.mem_singleton] at hmem
    rw [hmem, hv] at hself
    cases hself
  | @expanded v entries own below s hv hown hbelow hyields hs ih =>
    have h : plan.Yields tree v s := .expanded hv hown hbelow hyields hs
    rw [visits_expanded hs] at hmem hnodup hstanding
    rw [List.nodup_cons] at hnodup
    by_cases hvisit : v = link.visit
    · subst hvisit
      refine h.grafted_here hgains hnames hself habove fun w hw => ?_
      rw [visits_expanded hs, List.tail_cons] at hw
      exact hstanding w (List.mem_cons_of_mem _ hw) (ne_of_mem_of_not_mem hw hnodup.1)
    · -- the link lies below one of the subdirectories, and the others are as before
      obtain ⟨b, hb, hlink⟩ := List.mem_flatMap.mp
        ((List.mem_cons.mp hmem).resolve_left (Ne.symm hvisit))
      obtain ⟨before, after, rfl⟩ := List.append_of_mem hb
      have hchild : ∀ c ∈ before ++ b :: after,
          ∀ w ∈ (c.2.root.nodes (v.child c.1).above).map Prod.fst, w ≠ link.visit →
            other.standing w = tree.standing w := fun c hc w hw =>
        hstanding w (List.mem_cons_of_mem v (List.mem_flatMap.mpr ⟨c, hc, hw⟩))
      obtain ⟨hparts, hdisjoint⟩ := List.nodup_flatMap.mp hnodup.2
      obtain ⟨s', hs', hskipped, hgrafted⟩ := ih b hb hlink (hparts b hb) (hchild b hb)
      have hothers : ∀ c ∈ before ++ after, plan.Yields other (v.child c.1) c.2 := fun c hc => by
        have hdisjoint := (List.pairwise_middle fun h => List.disjoint_symm h).mp hdisjoint
        have hnot := List.disjoint_left.mp ((List.pairwise_cons.mp hdisjoint).1 c hc) hlink
        have hc := List.perm_middle.mem_iff.mpr (List.mem_cons_of_mem b hc)
        exact (hyields c hc).congr
          (fun w hw => hchild c hc w hw (ne_of_mem_of_not_mem hw hnot))
          fun _ _ path _ => hgains.examine path
      have hcombine := Exploration.combine_congr hs ((before ++ (b.1, s') :: after).map Prod.snd)
        (by simp [hgrafted.report_eq]) (by simp [hskipped])
      refine ⟨_, .expanded ((hstanding v List.mem_cons_self hvisit).trans hv) ?_ ?_
        (fun c hc => ?_) hcombine, rfl, ?_⟩
      · rwa [plan.examineAll_congr hv fun path _ => hgains.examine path]
      · rw [← hbelow]
        simp
      · rcases List.mem_cons.mp (List.perm_middle.mem_iff.mp hc) with rfl | hc
        · exact hs'
        · exact hothers c hc
      · rw [Exploration.root_of_combine hs]
        simp only [List.map_append, List.map_cons]
        exact .deeper hgrafted

end

/-! ## Runs -/

section

variable {root : Path} (hnames : tree.WellNamed) (hgains : tree.Gains link other)
  (h : plan.Yields tree (Visit.top root) s)
  (hvisit : link.visit ∈ (s.root.nodes []).map Prod.fst)
  (hself : (tree.standing link.visit).isExpanded = true)

include hnames hgains h hvisit hself

/-- The path of the link is that of no directory on the way to a visit. -/
theorem Yields.path_not_mem :
    ∀ w ∈ (s.root.nodes []).map Prod.fst, link.path ∉ w.dir :: w.above := by
  obtain ⟨before, after, hlist, -, hnew⟩ := hgains.listed
  obtain ⟨entries, hentries⟩ := Standing.isExpanded_iff.mp hself
  obtain rfl := Except.ok.inj (hlist.symm.trans (SourceTree.list_of_expanded hentries))
  have hpath := h.walk.join_not_mem hnames hvisit hentries hgains.isName hnew
  intro w hw hmem
  refine hpath ?_
  rcases List.mem_cons.mp hmem with heq | hmem
  · exact List.mem_map.mpr ⟨w, hw, heq.symm⟩
  · exact h.walk.above_subset w hw hmem

theorem Yields.standing_eq :
    ∀ w ∈ (s.root.nodes []).map Prod.fst, w ≠ link.visit →
      other.standing w = tree.standing w := by
  intro w hw hne
  refine hgains.standing_eq (h.path_not_mem hnames hgains hvisit hself w hw) fun hdir => hne ?_
  exact List.inj_on_of_nodup_map (h.walk.nodup_dirs hnames) hw hvisit hdir

/-- What was expanded is expanded as before. -/
theorem Yields.isExpanded_gains {w : Visit} (hw : w ∈ (s.root.nodes []).map Prod.fst)
    (hexpanded : (tree.standing w).isExpanded = true) :
    (other.standing w).isExpanded = true := by
  by_cases hlink : w = link.visit
  · have habove := h.path_not_mem hnames hgains hvisit hself _ hvisit
    obtain ⟨before, after, -, hself', -⟩ := hgains.standing_self habove hself
    rw [hlink, hself', Standing.isExpanded_expanded]
  · rwa [h.standing_eq hnames hgains hvisit hself w hw hlink]

end

variable {root : Path} {links : List Link}

/-- **Links that lead back change no total.** Let the listings of a tree hold
names, and none of them twice, and let a run over it return a survey. Let the
tree gain links, one after the other, in directories that the run expanded: each
under a name that the directory does not list, at any place in its listing, and
with the identity of the directory or of one above it. Then the run over the
tree with the links returns a survey that leaves out the same paths, and whose
folder has for each link one empty leaf more, at the place of its name among the
children of its directory. All other directories and all reports are the same. -/
theorem returns_grafted (hnames : tree.WellNamed) (h : plan.Returns tree root (.ok s))
    (hlinks : ∀ link ∈ links, link.visit ∈ (s.root.nodes []).map Prod.fst ∧
      (tree.standing link.visit).isExpanded = true)
    (hgains : tree.GainsAll links other) :
    ∃ s', plan.Returns other root (.ok s') ∧ s'.skipped = s.skipped ∧
      Folder.GraftedAll links s.root s'.root := by
  induction hgains generalizing s with
  | nil => exact ⟨s, h, rfl, .nil⟩
  | @cons link links tree between other hlink _ ih =>
    obtain ⟨hroot, hyields⟩ := returns_ok_iff.mp h
    obtain ⟨⟨hvisit, hself⟩, hlinks⟩ := List.forall_mem_cons.mp hlinks
    have hnodup := hyields.walk.nodup_dirs hnames
    obtain ⟨s₁, h₁, hskipped₁, hgrafted⟩ := hyields.grafted hlink hnames hself
      (hyields.path_not_mem hnames hlink hvisit hself _ hvisit) hvisit (hnodup.of_map _)
      (hyields.standing_eq hnames hlink hvisit hself)
    obtain ⟨s', h', hskipped, hall⟩ := ih (hlink.wellNamed hnames)
      (returns_ok_iff.mpr ⟨(hlink.isDirectory root).trans hroot, h₁⟩) fun l hl => by
        obtain ⟨hl, hexpanded⟩ := hlinks l hl
        exact ⟨hgrafted.visits_sublist.subset hl,
          hyields.isExpanded_gains hnames hlink hvisit hself hl hexpanded⟩
    exact ⟨s', h', hskipped.trans hskipped₁, .cons hgrafted hall⟩

end Plan

namespace MemoryTree

theorem lookup_bind_self {α β : Type} [DecidableEq α] (key : α) (value : β)
    (all : List (α × β)) : (bind key value all).lookup key = some value := by
  induction all with
  | nil => rw [bind, List.lookup_cons_self]
  | cons binding all ih =>
    obtain ⟨k, v⟩ := binding
    rw [bind]
    split
    · exact List.lookup_cons_self
    · next hne => rw [List.lookup_cons, beq_false_of_ne (Ne.symm hne), ih]

theorem lookup_of_list {t : MemoryTree} {dir : Path} {entries : List Entry}
    (h : t.answers.list dir = .ok entries) : t.directories.lookup dir = some entries := by
  have hlookup := eq_of_unlessPlanned h
  split at hlookup
  · next found hfound => rw [hfound, Except.ok.inj hlookup]
  · cases hlookup

theorem list_addEntry {t : MemoryTree} {dir : Path} {entries : List Entry}
    (h : t.answers.list dir = .ok entries) (e : Entry) :
    (t.addEntry dir e).answers.list dir = .ok (entries ++ [e]) := by
  have hlookup := lookup_of_list h
  simp only [answers, list, unlessPlanned, addEntry, lookup_bind_self, hlookup] at h ⊢
  split at h
  · cases h
  · rfl

/-- An entry and an identity make a link. -/
theorem gains_identify {t : MemoryTree} {link : Link} {entries : List Entry}
    {dir identity : Path} (hname : IsName link.name)
    (hlist : t.answers.list link.visit.dir = .ok entries)
    (hnew : ∀ e ∈ entries, e.name ≠ link.name)
    (hdir : dir ∈ link.visit.dir :: link.visit.above)
    (hid : t.answers.identity dir = .ok identity)
    (hplanned : t.planned.lookup (link.path, .identity) = none) :
    t.answers.Gains link
      ((t.addEntry link.visit.dir link.entry).identify link.path identity).answers where
  isName := hname
  listed := by
    refine ⟨entries, [], ?_, list_addEntry hlist link.entry, ?_⟩
    · rwa [List.append_nil]
    · rwa [List.append_nil]
  leadsBack := by
    refine ⟨dir, hdir, identity, hid, ?_⟩
    simp only [answers, unlessPlanned, identify, addEntry, identityOf, hplanned, lookup_bind_self,
      Option.getD_some]
  list other hne := by
    simp only [answers, list, unlessPlanned, identify, addEntry, lookup_bind_of_ne hne]
  identity other hne := by
    simp only [answers, unlessPlanned, identify, addEntry, identityOf, lookup_bind_of_ne hne]
  isDirectory path := by
    simp only [answers, identify, addEntry]
    by_cases hpath : path = link.visit.dir
    · rw [hpath, lookup_bind_self, lookup_of_list hlist]
      rfl
    · rw [lookup_bind_of_ne hpath]
  contents _ := rfl
  size _ := rfl

end MemoryTree

namespace Plan

open MemoryTree

/-- In `r/a` lies a link to `r`, and in `r` one to itself, with names that come
after `w.j` and before `a`. -/
def looped : MemoryTree :=
  let t := (forked.addEntry (.ofString "r/a") ⟨Utf8.ofString "z", .directory⟩).identify
    (.ofString "r/a/z") (.ofString "r")
  (t.addEntry (.ofString "r") ⟨Utf8.ofString "A", .directory⟩).identify (.ofString "r/A")
    (.ofString "r")

/-- The two links. -/
def loops : List Link :=
  [⟨(Visit.top (.ofString "r")).child (Utf8.ofString "a"), Utf8.ofString "z"⟩,
    ⟨Visit.top (.ofString "r"), Utf8.ofString "A"⟩]

/-- The survey of `r` gains two leaves, and `r/b` is left out as before. -/
theorem returns_grafted_looped : ∃ s s',
    lenient.Returns forked.answers (.ofString "r") (.ok s) ∧
      s.skipped.map Skip.path = [.ofString "r/b"] ∧
      forked.answers.GainsAll loops looped.answers ∧
      lenient.Returns looped.answers (.ofString "r") (.ok s') ∧ s'.skipped = s.skipped ∧
      Folder.GraftedAll loops s.root s'.root := by
  obtain ⟨s, hs, hvisits, hskipped⟩ := exists_yields_forked
  have hreturns : lenient.Returns forked.answers (.ofString "r") (.ok s) :=
    returns_ok_iff.mpr ⟨rfl, hs⟩
  have hgains : forked.answers.GainsAll loops looped.answers := by
    refine .cons (gains_identify (by decide) rfl (by decide)
      (List.mem_cons_of_mem _ List.mem_cons_self) rfl rfl) (.cons ?_ .nil)
    exact gains_identify (by decide) rfl (by decide) List.mem_cons_self rfl rfl
  obtain ⟨s', hreturns', hskips, hgrafted⟩ := returns_grafted
    (wellNamed_answers (by decide) (by decide)) hreturns (fun link hlink => by
      rw [hvisits]
      rcases List.mem_pair.mp hlink with rfl | rfl
      · exact ⟨by simp, rfl⟩
      · exact ⟨by simp, rfl⟩) hgains
  exact ⟨s, s', hreturns, hskipped, hgains, hreturns', hskips, hgrafted⟩

end Plan

end KeywordSurvey
