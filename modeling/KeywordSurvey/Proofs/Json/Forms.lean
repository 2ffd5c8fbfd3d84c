import KeywordSurvey.Json.Form
import KeywordSurvey.Proofs.Json.Accepted
import KeywordSurvey.Proofs.Json.Written
import KeywordSurvey.Proofs.Text.Utf8

/-!
# Forms are faithful

For each form three things (`Form.Faithful`): what is written is read back,
apart from paths that are no text; what is read needs no more nestings to be
written than it took to be read; and more nestings change nothing.
-/

namespace KeywordSurvey

/-- The path of which a text shows all. -/
def Path.legible (p : Path) : Path := ⟨Utf8.encode p.lossy⟩

namespace Folder

mutual

/-- The folder with legible paths. -/
def legible : Folder → Folder
  | mk path report children => mk path.legible report (legibleAll children)

/-- Several folders with legible paths. -/
def legibleAll : List Folder → List Folder
  | [] => []
  | folder :: folders => legible folder :: legibleAll folders

end

theorem legibleAll_eq_map (folders : List Folder) : legibleAll folders = folders.map legible := by
  induction folders with
  | nil => rfl
  | cons folder folders ih => rw [legibleAll, ih, List.map_cons]

end Folder

/-- The path that was left out, made legible. -/
def Skip.legible (s : Skip) : Skip := { s with path := s.path.legible }

/-- The survey with legible paths. -/
def Survey.legible (s : Survey) : Survey := ⟨s.root.legible, s.skipped.map Skip.legible⟩

namespace Json

variable {α β : Type} {depth : Nat}

/-- Values are read back from what is written for them, up to `legible`. -/
structure Form.Faithful (form : Form α) (legible : α → α) : Prop where
  /-- As many nestings as the text has are enough to read it back. -/
  takes : ∀ {depth : Nat} {a : α}, (form.write a).nesting ≤ depth →
    form.read.Takes depth (form.write a) (legible a)
  /-- What has been read from any text is legible, and its own text nests no deeper. -/
  reads : ∀ {depth : Nat} {a : α}, form.read.Reads depth a →
    (form.write a).nesting ≤ depth ∧ legible a = a
  within : form.read.Within form.read

/-! ## Scalars -/

theorem text_faithful : text.Faithful id where
  takes _ := by
    intro layout level front rest hfront hrest
    simp only [text, Reader.text_takes _ _ layout level front rest hfront hrest, Except.map,
      String.ofList_toList, id]
  reads _ := ⟨Nat.zero_le _, rfl⟩
  within _ _ _ _ _ h := h

theorem path_faithful : path.Faithful Path.legible where
  takes _ := by
    intro layout level front rest hfront hrest
    simp only [path, Reader.text_takes _ _ layout level front rest hfront hrest, Except.map,
      Path.legible]
  reads := by
    rintro depth p ⟨s, rest, h⟩
    obtain ⟨r, -, hr⟩ := map_eq_ok_iff.mp h
    cases hr
    refine ⟨Nat.zero_le _, ?_⟩
    rw [Path.legible, Path.lossy, Utf8.decodeLossy_encode]
  within _ _ _ _ _ h := h

theorem count_faithful : count.Faithful id where
  takes {depth c} _ := Reader.natural_takes depth c.fits (Count.ofNat?_eq_some_iff.mpr rfl)
  reads _ := ⟨Nat.zero_le _, rfl⟩
  within _ _ _ _ _ h := h

/-- A choice between names that are no more than names. -/
theorem bare_faithful {all : List α} {name : α → String}
    (hfind : ∀ a, (all.map fun a => Alternative.bare (name a) a).find?
      (fun alt => alt.name == (name a).toList) = some (Alternative.bare (name a) a)) :
    Form.Faithful ⟨fun a => .text (name a).toList,
      Reader.choice (all.map fun a => Alternative.bare (name a) a)⟩ id where
  takes {depth a} _ := Reader.choice_takes_text depth (hfind a) rfl
  reads _ := ⟨Nat.zero_le _, rfl⟩
  within := by
    refine Reader.choice_within fun alt halt payload hpayload => ?_
    obtain ⟨a, -, rfl⟩ := List.mem_map.mp halt
    cases hpayload
    exact fun _ _ _ _ _ h => h

theorem keyword_faithful : keyword.Faithful id :=
  bare_faithful fun k => by cases k <;> rfl

theorem entryKind_faithful : entryKind.Faithful id :=
  bare_faithful fun k => by cases k <;> rfl

/-! ## Lists -/

theorem Form.Faithful.list {form : Form α} {legible : α → α} (h : form.Faithful legible) :
    form.list.Faithful (List.map legible) where
  takes := by
    intro depth l hnesting
    obtain ⟨below, rfl, hitems⟩ := Value.nesting_list_le_iff.mp hnesting
    exact Reader.list_takes fun a ha => h.takes (hitems _ (List.mem_map_of_mem ha))
  reads := by
    intro depth l hl
    obtain ⟨below, rfl, hitems⟩ := Reader.list_reads hl
    refine ⟨Value.nesting_list_le_iff.mpr ⟨below, rfl, fun v hv => ?_⟩, ?_⟩
    · obtain ⟨a, ha, rfl⟩ := List.mem_map.mp hv
      exact (h.reads (hitems a ha)).1
    · exact (List.map_congr_left fun a ha => (h.reads (hitems a ha)).2).trans (List.map_id' l)
  within := Reader.list_within h.within

/-! ## Records of scalars -/

theorem tally_faithful : tally.Faithful id where
  takes := by
    intro depth t hnesting
    obtain ⟨below, rfl, -⟩ := Value.nesting_record_le_iff.mp hnesting
    have hcount : ∀ k, count.read.Takes below (.number (t.get k).val) (t.get k) :=
      fun k => count_faithful.takes (Nat.zero_le below)
    exact Reader.record_takes
      (.cons rfl rfl (Field.of_takes (hcount .publicWord)) <|
        .cons rfl rfl (Field.of_takes (hcount .privateWord)) <|
        .cons rfl rfl (Field.of_takes (hcount .tryWord)) <|
        .cons rfl rfl (Field.of_takes (hcount .catchWord)) .nil) rfl
  reads := by
    intro depth t h
    obtain ⟨below, rfl, -⟩ := Reader.record_reads h
    refine ⟨Value.nesting_record_le_iff.mpr ⟨below, rfl, fun member hmember => ?_⟩, rfl⟩
    obtain ⟨k, -, rfl⟩ := List.mem_map.mp hmember
    exact Nat.zero_le below
  within := Reader.record_within (List.forall₂_map_left_iff.mpr
    (List.forall₂_map_right_iff.mpr (List.forall₂_same.mpr
      fun k _ => Field.of_within count_faithful.within)))

theorem fileReport_faithful : fileReport.Faithful id where
  takes := by
    intro depth r hnesting
    obtain ⟨below, rfl, hmembers⟩ := Value.nesting_record_le_iff.mp hnesting
    simp only [List.forall_mem_cons] at hmembers
    obtain ⟨hsize, htally, -⟩ := hmembers
    exact Reader.record_takes
      (.cons rfl rfl (Field.of_takes (count_faithful.takes hsize)) <|
        .cons rfl rfl (Field.of_takes (tally_faithful.takes htally)) .nil) rfl
  reads := by
    intro depth r h
    obtain ⟨below, rfl, hkeeps⟩ := Reader.record_reads h
    obtain ⟨so, htally, hfinish⟩ := hkeeps
      (fun so => ∀ t, so.tally = some t → (tally.write t).nesting ≤ below) {
        start := nofun
        fields := List.forall_mem_cons.mpr ⟨Field.of_keeps fun _ _ hso _ => hso,
          List.forall_mem_singleton.mpr (Field.of_keeps fun _ t _ ht _ h =>
            Option.some.inj h ▸ (tally_faithful.reads ht).1)⟩ }
    simp only [Option.bind_eq_bind, Option.bind_eq_some_iff] at hfinish
    obtain ⟨size, -, t, ht, hr⟩ := hfinish
    cases hr
    exact ⟨Value.nesting_record_le_iff.mpr ⟨below, rfl, List.forall_mem_cons.mpr
      ⟨Nat.zero_le below, List.forall_mem_singleton.mpr (htally t ht)⟩⟩, rfl⟩
  within := Reader.record_within (.cons (Field.of_within count_faithful.within) <|
    .cons (Field.of_within tally_faithful.within) .nil)

theorem report_faithful : report.Faithful id where
  takes := by
    intro depth r hnesting
    obtain ⟨below, rfl, hmembers⟩ := Value.nesting_record_le_iff.mp hnesting
    simp only [List.forall_mem_cons] at hmembers
    obtain ⟨hsize, htally, hfiles, -⟩ := hmembers
    exact Reader.record_takes
      (.cons rfl rfl (Field.of_takes (count_faithful.takes hsize)) <|
        .cons rfl rfl (Field.of_takes (tally_faithful.takes htally)) <|
        .cons rfl rfl (Field.of_takes (count_faithful.takes hfiles)) .nil) rfl
  reads := by
    intro depth r h
    obtain ⟨below, rfl, hkeeps⟩ := Reader.record_reads h
    obtain ⟨so, htally, hfinish⟩ := hkeeps
      (fun so => ∀ t, so.tally = some t → (tally.write t).nesting ≤ below) {
        start := nofun
        fields := List.forall_mem_cons.mpr ⟨Field.of_keeps fun _ _ hso _ => hso,
          List.forall_mem_cons.mpr ⟨Field.of_keeps fun _ t _ ht _ h =>
            Option.some.inj h ▸ (tally_faithful.reads ht).1,
          List.forall_mem_singleton.mpr (Field.of_keeps fun _ _ hso _ => hso)⟩⟩ }
    simp only [Option.bind_eq_bind, Option.bind_eq_some_iff] at hfinish
    obtain ⟨size, -, t, ht, files, -, hr⟩ := hfinish
    cases hr
    exact ⟨Value.nesting_record_le_iff.mpr ⟨below, rfl, List.forall_mem_cons.mpr
      ⟨Nat.zero_le below, List.forall_mem_cons.mpr
        ⟨htally t ht, List.forall_mem_singleton.mpr (Nat.zero_le below)⟩⟩⟩, rfl⟩
  within := Reader.record_within (.cons (Field.of_within count_faithful.within) <|
    .cons (Field.of_within tally_faithful.within) <|
    .cons (Field.of_within count_faithful.within) .nil)

theorem skip_faithful : skip.Faithful Skip.legible where
  takes := by
    intro depth s hnesting
    obtain ⟨below, rfl, -⟩ := Value.nesting_record_le_iff.mp hnesting
    exact Reader.record_takes
      (.cons rfl rfl (Field.of_takes (path_faithful.takes (Nat.zero_le below))) <|
        .cons rfl rfl (Field.of_takes (text_faithful.takes (Nat.zero_le below))) .nil) rfl
  reads := by
    intro depth s h
    obtain ⟨below, rfl, hkeeps⟩ := Reader.record_reads h
    obtain ⟨so, hpath, hfinish⟩ := hkeeps (fun so => ∀ p, so.path = some p → p.legible = p) {
      start := nofun
      fields := List.forall_mem_cons.mpr ⟨Field.of_keeps fun _ p _ hp _ h =>
          Option.some.inj h ▸ (path_faithful.reads hp).2,
        List.forall_mem_singleton.mpr (Field.of_keeps fun _ _ hso _ => hso)⟩ }
    simp only [Option.bind_eq_bind, Option.bind_eq_some_iff] at hfinish
    obtain ⟨p, hp, reason, -, hs⟩ := hfinish
    cases hs
    refine ⟨Value.nesting_record_le_iff.mpr ⟨below, rfl, List.forall_mem_cons.mpr
      ⟨Nat.zero_le below, List.forall_mem_singleton.mpr (Nat.zero_le below)⟩⟩, ?_⟩
    rw [Skip.legible, hpath p hp]
  within := Reader.record_within (.cons (Field.of_within path_faithful.within) <|
    .cons (Field.of_within text_faithful.within) .nil)

/-! ## Entries -/

theorem byte?_toNat (b : UInt8) : byte? b.toNat = some b := by
  rw [byte?, if_pos b.toNat_lt, Nat.toUInt8, UInt8.ofNat_toNat]

theorem name_faithful : name.Faithful id where
  takes := by
    intro depth bytes hnesting
    obtain ⟨below, rfl, hmembers⟩ := Value.nesting_record_le_iff.mp hnesting
    obtain ⟨bottom, rfl, -⟩ := Value.nesting_list_le_iff.mp (hmembers _ List.mem_cons_self)
    have hbytes := @Reader.list_takes UInt8 UInt8 bottom (Reader.natural byte?)
      (fun b => .number b.toNat) id bytes fun b _ =>
        Reader.natural_takes bottom (Nat.lt_trans b.toNat_lt (by decide)) (byte?_toNat b)
    rw [List.map_id] at hbytes
    exact Reader.choice_takes_record rfl rfl hbytes
  reads := by
    intro depth bytes h
    obtain ⟨chosen, hmem, halone | ⟨payload, below, hpayload, rfl, hread⟩⟩ := Reader.choice_reads h
    · simp only [List.mem_cons, List.not_mem_nil, or_false] at hmem
      rcases hmem with rfl | rfl <;> cases halone
    · simp only [List.mem_cons, List.not_mem_nil, or_false] at hmem
      rcases hmem with rfl | rfl
      · cases hpayload
        obtain ⟨bottom, rfl, -⟩ := Reader.list_reads hread
        refine ⟨Value.nesting_record_le_iff.mpr ⟨bottom + 1, rfl, List.forall_mem_singleton.mpr
          (Value.nesting_list_le_iff.mpr ⟨bottom, rfl, fun v hv => ?_⟩)⟩, rfl⟩
        obtain ⟨b, -, rfl⟩ := List.mem_map.mp hv
        exact Nat.zero_le bottom
      · cases hpayload
  within := by
    refine Reader.choice_within fun alt halt payload hpayload => ?_
    simp only [List.mem_cons, List.not_mem_nil, or_false] at halt
    rcases halt with rfl | rfl
    · cases hpayload
      exact Reader.list_within fun _ _ _ _ _ h => h
    · cases hpayload

theorem entry_faithful : entry.Faithful id where
  takes := by
    intro depth e hnesting
    obtain ⟨below, rfl, hmembers⟩ := Value.nesting_record_le_iff.mp hnesting
    simp only [List.forall_mem_cons] at hmembers
    obtain ⟨hname, hkind, -⟩ := hmembers
    exact Reader.record_takes
      (.cons rfl rfl (Field.of_takes (name_faithful.takes hname)) <|
        .cons rfl rfl (Field.of_takes (entryKind_faithful.takes hkind)) .nil) rfl
  reads := by
    intro depth e h
    obtain ⟨below, rfl, hkeeps⟩ := Reader.record_reads h
    obtain ⟨so, hname, hfinish⟩ := hkeeps
      (fun so => ∀ n, so.name = some n → (name.write n).nesting ≤ below) {
        start := nofun
        fields := List.forall_mem_cons.mpr ⟨Field.of_keeps fun _ n _ hn _ h =>
            Option.some.inj h ▸ (name_faithful.reads hn).1,
          List.forall_mem_singleton.mpr (Field.of_keeps fun _ _ hso _ => hso)⟩ }
    simp only [Option.bind_eq_bind, Option.bind_eq_some_iff] at hfinish
    obtain ⟨n, hn, kind, -, he⟩ := hfinish
    cases he
    exact ⟨Value.nesting_record_le_iff.mpr ⟨below, rfl, List.forall_mem_cons.mpr
      ⟨hname n hn, List.forall_mem_singleton.mpr (Nat.zero_le below)⟩⟩, rfl⟩
  within := Reader.record_within (.cons (Field.of_within name_faithful.within) <|
    .cons (Field.of_within entryKind_faithful.within) .nil)

/-! ## Folders and surveys -/

theorem writeFolders_eq_map (folders : List Folder) :
    writeFolders folders = folders.map writeFolder := by
  induction folders with
  | nil => rfl
  | cons folder folders ih => rw [writeFolders, ih, List.map_cons]

theorem folderReader_takes {levels : Nat} :
    ∀ {depth : Nat} {folder : Folder}, (writeFolder folder).nesting ≤ depth → depth < levels →
      (folderReader levels).Takes depth (writeFolder folder) folder.legible := by
  induction levels with
  | zero => exact fun _ h => absurd h (Nat.not_lt_zero _)
  | succ levels ih =>
    rintro depth ⟨p, r, children⟩ hnesting hlevels
    rw [writeFolder, writeFolders_eq_map] at hnesting ⊢
    obtain ⟨below, rfl, hmembers⟩ := Value.nesting_record_le_iff.mp hnesting
    simp only [List.forall_mem_cons] at hmembers
    obtain ⟨hpath, hreport, hchildren, -⟩ := hmembers
    obtain ⟨bottom, rfl, hitems⟩ := Value.nesting_list_le_iff.mp hchildren
    have hlist := @Reader.list_takes Folder Folder bottom (folderReader levels) writeFolder
      Folder.legible children fun child hchild =>
        ih (hitems _ (List.mem_map_of_mem hchild)) (by omega)
    rw [← Folder.legibleAll_eq_map] at hlist
    exact Reader.record_takes
      (.cons rfl rfl (Field.of_takes (path_faithful.takes hpath)) <|
        .cons rfl rfl (Field.of_takes (report_faithful.takes hreport)) <|
        .cons rfl rfl (Field.of_takes hlist) .nil) rfl

theorem folderReader_reads {levels : Nat} :
    ∀ {depth : Nat} {folder : Folder}, (folderReader levels).Reads depth folder →
      (writeFolder folder).nesting ≤ depth ∧ folder.legible = folder := by
  induction levels with
  | zero =>
    rintro depth folder ⟨s, rest, h⟩
    cases h
  | succ levels ih =>
    intro depth folder h
    obtain ⟨below, rfl, hkeeps⟩ := Reader.record_reads h
    obtain ⟨so, ⟨hpath, hreport, hchildren⟩, hfinish⟩ := hkeeps
      (fun so => (∀ p, so.path = some p → p.legible = p) ∧
        (∀ r, so.report = some r → (report.write r).nesting ≤ below) ∧
        (∀ l, so.children = some l → (Reader.list (folderReader levels)).Reads below l)) {
        start := ⟨nofun, nofun, nofun⟩
        fields := List.forall_mem_cons.mpr ⟨Field.of_keeps fun _ p hso hp =>
            ⟨fun _ h => Option.some.inj h ▸ (path_faithful.reads hp).2, hso.2⟩,
          List.forall_mem_cons.mpr ⟨Field.of_keeps fun _ r hso hr =>
            ⟨hso.1, fun _ h => Option.some.inj h ▸ (report_faithful.reads hr).1, hso.2.2⟩,
          List.forall_mem_singleton.mpr (Field.of_keeps fun _ l hso hl =>
            ⟨hso.1, hso.2.1, fun _ h => Option.some.inj h ▸ hl⟩)⟩⟩ }
    simp only [folderShape, Option.bind_eq_bind, Option.bind_eq_some_iff] at hfinish
    obtain ⟨p, hp, r, hr, children, hread, hfolder⟩ := hfinish
    cases hfolder
    obtain ⟨bottom, rfl, hitems⟩ := Reader.list_reads (hchildren children hread)
    rw [writeFolder, writeFolders_eq_map, Folder.legible, Folder.legibleAll_eq_map, hpath p hp]
    constructor
    · refine Value.nesting_record_le_iff.mpr ⟨bottom + 1, rfl, List.forall_mem_cons.mpr
        ⟨Nat.zero_le _, List.forall_mem_cons.mpr ⟨hreport r hr, List.forall_mem_singleton.mpr
          (Value.nesting_list_le_iff.mpr ⟨bottom, rfl, fun v hv => ?_⟩)⟩⟩⟩
      obtain ⟨child, hchild, rfl⟩ := List.mem_map.mp hv
      exact (ih (hitems child hchild)).1
    · have hlegible : children.map Folder.legible = children :=
        (List.map_congr_left fun child hchild => (ih (hitems child hchild)).2).trans
          (List.map_id' children)
      rw [hlegible]

theorem folderReader_within {levels : Nat} :
    ∀ {more : Nat}, levels ≤ more → (folderReader levels).Within (folderReader more) := by
  induction levels with
  | zero =>
    intro more _ _ _ _ _ _ h
    cases h
  | succ levels ih =>
    intro more hle
    cases more with
    | zero => exact absurd hle (Nat.not_succ_le_zero levels)
    | succ more =>
      exact Reader.record_within (.cons (Field.of_within path_faithful.within) <|
        .cons (Field.of_within report_faithful.within) <|
        .cons (Field.of_within (Reader.list_within (ih (Nat.le_of_succ_le_succ hle)))) .nil)

theorem folder_faithful : folder.Faithful Folder.legible where
  takes := by
    intro depth f hnesting layout level front rest hfront hrest
    exact folderReader_takes hnesting (Nat.lt_succ_self depth) layout level front rest hfront hrest
  reads := by
    rintro depth f ⟨s, rest, h⟩
    exact @folderReader_reads (depth + 1) _ _ ⟨s, rest, h⟩
  within := by
    intro depth more s r hle h
    exact folderReader_within (Nat.succ_le_succ hle) hle h

theorem survey_faithful : survey.Faithful Survey.legible where
  takes := by
    intro depth s hnesting
    obtain ⟨below, rfl, hmembers⟩ := Value.nesting_record_le_iff.mp hnesting
    simp only [List.forall_mem_cons] at hmembers
    obtain ⟨hroot, hskipped, -⟩ := hmembers
    exact Reader.record_takes
      (.cons rfl rfl (Field.of_takes (folder_faithful.takes hroot)) <|
        .cons rfl rfl (Field.of_takes (skip_faithful.list.takes hskipped)) .nil) rfl
  reads := by
    intro depth s h
    obtain ⟨below, rfl, hkeeps⟩ := Reader.record_reads h
    obtain ⟨so, ⟨hroot, hskipped⟩, hfinish⟩ := hkeeps
      (fun so => (∀ f, so.root = some f → folder.read.Reads below f) ∧
        (∀ l, so.skipped = some l → skip.list.read.Reads below l)) {
        start := ⟨nofun, nofun⟩
        fields := List.forall_mem_cons.mpr ⟨Field.of_keeps fun _ f hso hf =>
            ⟨fun _ h => Option.some.inj h ▸ hf, hso.2⟩,
          List.forall_mem_singleton.mpr (Field.of_keeps fun _ l hso hl =>
            ⟨hso.1, fun _ h => Option.some.inj h ▸ hl⟩)⟩ }
    simp only [Option.bind_eq_bind, Option.bind_eq_some_iff] at hfinish
    obtain ⟨root, hr, skipped, hs, hsurvey⟩ := hfinish
    cases hsurvey
    have hfolder := folder_faithful.reads (hroot root hr)
    have hskips := skip_faithful.list.reads (hskipped skipped hs)
    refine ⟨Value.nesting_record_le_iff.mpr ⟨below, rfl, List.forall_mem_cons.mpr
      ⟨hfolder.1, List.forall_mem_singleton.mpr hskips.1⟩⟩, ?_⟩
    rw [Survey.legible, hfolder.2, hskips.2]
  within := Reader.record_within (.cons (Field.of_within folder_faithful.within) <|
    .cons (Field.of_within skip_faithful.list.within) .nil)

end Json

end KeywordSurvey
