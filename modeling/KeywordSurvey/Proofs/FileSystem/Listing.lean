import Mathlib.Data.List.Forall2
import Mathlib.Data.List.Nodup
import Mathlib.Data.List.ReduceOption
import KeywordSurvey.Proofs.FileSystem.Disk
import KeywordSurvey.Proofs.FileSystem.Joined

/-!
# Listings are complete

A listing has one entry for each name in the directory, whether the walker
comes by an item for it or by an error that names it, and the kind of the entry
is the type of what the name leads to (`Disk.list_eq_entriesOf`). The one
exception is a directory that goes by the path of the standard input: it is
listed as empty (`Disk.list_of_holds`).

What is asked of the walker for this is what it says of itself. The walker of a
file system keeps to it (`FileSystem.holds_contents`).
-/

namespace KeywordSurvey

namespace Disk

open FileSystem (dash)

/-! ## Directories and their walkers -/

/-- What a walker comes by for a name, if this is what its path leads to. A link
to the directory itself is met as an error that names the link, and so is a link
that leads nowhere. -/
inductive Meets (path : Path) (name : Bytes) : Option FileType → Except WalkError Walked → Prop
  | item {type : FileType} : Meets path name (some type) (.ok ⟨1, name, some type⟩)
  | loop {depth : Nat} {ancestor : Path} :
      Meets path name (some .directory) (.error (.atDepth depth (.loop ancestor path)))
  | unresolved {depth : Nat} {error : SystemError} :
      Meets path name none (.error (.atPath path (.atDepth depth (.system error))))

/-- The directory can be listed and holds these names, and paths lead to things
of these types, links followed. A walk comes by the directory itself and then by
something for each name; if the path of the directory stands for the standard
input, it comes by nothing else. -/
structure Holds (disk : Disk) (type : Path → Option FileType) (dir : Path)
    (names : List Bytes) : Prop where
  isName : ∀ name ∈ names, IsEntryName name
  nodup : names.Nodup
  isDirectory_iff : ∀ name ∈ names,
    disk.isDirectory (dir.join name) = true ↔ type (dir.join name) = some .directory
  walk : dir.same dash = false → ∃ top items, top.depth = 0 ∧ disk.walk dir = .ok top :: items ∧
    List.Forall₂ (fun name => Meets (dir.join name) name (type (dir.join name))) names items
  walk_dash : dir.same dash = true → ∃ top, top.depth = 0 ∧ disk.walk dir = [.ok top]

/-- One entry for each name. -/
def entriesOf (type : Path → Option FileType) (dir : Path) (names : List Bytes) : List Entry :=
  names.map fun name => ⟨name, .ofType (type (dir.join name))⟩

/-! ## What becomes of what a walker comes by -/

section

variable {disk : Disk} {type : Path → Option FileType} {dir : Path} {names : List Bytes}
variable {name : Bytes} {reached : Option FileType} {item : Except WalkError Walked}

/-- Whatever the walker comes by for a name, there is an entry with the name. -/
theorem found_of_meets (disk : Disk) (hname : IsEntryName name)
    (h : Meets (dir.join name) name reached item) :
    ∃ isResolved, disk.found dir item = .ok (some ⟨⟨name, .ofType reached⟩, isResolved⟩) := by
  have hfile : ((some (dir.join name)).filter fun path => !path.same dir).bind Path.fileName?
      = some name := by
    rw [Option.filter_some_pos (by simp [Path.join_same hname]), Option.bind_some,
      Path.fileName?_join hname]
  cases h with
  | item => exact ⟨true, rfl⟩
  | loop =>
    refine ⟨false, ?_⟩
    simp only [found, WalkError.entryName?, WalkError.failedPath?, hfile]
    rfl
  | unresolved =>
    refine ⟨false, ?_⟩
    simp only [found, WalkError.entryName?, WalkError.failedPath?, hfile]
    rfl

/-- The items of a walk come to the entries, one for one. -/
theorem entries_of_items (disk : Disk) {items : List (Except WalkError Walked)}
    (hnames : ∀ name ∈ names, IsEntryName name)
    (h : List.Forall₂ (fun name => Meets (dir.join name) name (type (dir.join name)))
      names items) :
    ∃ found, items.mapM (disk.found dir) = .ok found ∧
      found.reduceOption.map Found.entry = entriesOf type dir names := by
  induction h with
  | nil => exact ⟨[], rfl, rfl⟩
  | @cons name item names items hitem _ ih =>
    obtain ⟨hname, hnames⟩ := List.forall_mem_cons.mp hnames
    obtain ⟨isResolved, hfound⟩ := found_of_meets disk hname hitem
    obtain ⟨found, hmap, hentries⟩ := ih hnames
    refine ⟨some ⟨⟨name, .ofType (type (dir.join name))⟩, isResolved⟩ :: found, ?_, ?_⟩
    · rw [List.mapM_cons, bind_eq_ok_iff]
      refine ⟨_, hfound, ?_⟩
      rw [bind_eq_ok_iff]
      exact ⟨found, hmap, rfl⟩
    · rw [List.reduceOption_cons_of_some, List.map_cons, hentries]
      rfl

/-- The directory itself is no entry. -/
theorem list_of_walk {top : Walked} {items : List (Except WalkError Walked)}
    {found : List (Option Found)} (htop : top.depth = 0) (hwalk : disk.walk dir = .ok top :: items)
    (hmap : items.mapM (disk.found dir) = .ok found) :
    disk.list dir = .ok (found.reduceOption.map Found.entry) := by
  have htop : disk.found dir (.ok top) = .ok none := by rw [Disk.found, if_pos htop]
  rw [list, inspect, hwalk, map_eq_ok_iff]
  refine ⟨found.reduceOption, map_eq_ok_iff.mpr ⟨none :: found, ?_, ?_⟩, rfl⟩
  · rw [List.mapM_cons, bind_eq_ok_iff]
    refine ⟨none, htop, ?_⟩
    rw [bind_eq_ok_iff]
    exact ⟨found, hmap, rfl⟩
  · exact List.reduceOption_cons_of_none found

theorem list_eq_entriesOf (h : disk.Holds type dir names) (hdash : dir.same dash = false) :
    disk.list dir = .ok (entriesOf type dir names) := by
  obtain ⟨top, items, htop, hwalk, hitems⟩ := h.walk hdash
  obtain ⟨found, hmap, hentries⟩ := entries_of_items disk h.isName hitems
  rw [list_of_walk htop hwalk hmap, hentries]

theorem list_eq_nil (h : disk.Holds type dir names) (hdash : dir.same dash = true) :
    disk.list dir = .ok [] := by
  obtain ⟨top, htop, hwalk⟩ := h.walk_dash hdash
  exact list_of_walk htop hwalk rfl

/-- **A listing is complete**, except that of the standard input. Let a
directory hold some names, and let the walker come by something for each of
them, be it an item or an error. Then the directory is listed, whatever the
errors are, with one entry for each name and no other. An entry is a directory
if the system says so of its path; it is a file if its path leads to a regular
one, links followed; and it is of no use if its path leads to something else or
nowhere. But if the path of the directory is the same as a dash, then it is
listed as empty. -/
theorem list_of_holds (h : disk.Holds type dir names) :
    (dir.same dash = false → ∃ entries, disk.answers.list dir = .ok entries ∧
      entries.map Entry.name = names ∧ (entries.map Entry.name).Nodup ∧
      ∀ e ∈ entries,
        (e.kind = .directory ↔ disk.answers.isDirectory (dir.join e.name) = true) ∧
        (e.kind = .file ↔ type (dir.join e.name) = some .regular) ∧
        (e.kind = .other ↔
          type (dir.join e.name) = some .special ∨ type (dir.join e.name) = none)) ∧
    (dir.same dash = true → disk.answers.list dir = .ok []) := by
  refine ⟨fun hdash => ⟨entriesOf type dir names, list_eq_entriesOf h hdash, ?_⟩, list_eq_nil h⟩
  have hnames : (entriesOf type dir names).map Entry.name = names := by
    rw [entriesOf, List.map_map]
    exact List.map_id names
  refine ⟨hnames, by rw [hnames]; exact h.nodup, fun e he => ?_⟩
  obtain ⟨name, hname, rfl⟩ := List.mem_map.mp he
  have hdirectory := h.isDirectory_iff name hname
  refine ⟨?_, ?_, ?_⟩
  · refine Iff.trans ?_ hdirectory.symm
    rcases type (dir.join name) with _ | _ | _ | _ <;> simp [EntryKind.ofType]
  · rcases type (dir.join name) with _ | _ | _ | _ <;> simp [EntryKind.ofType]
  · rcases type (dir.join name) with _ | _ | _ | _ <;> simp [EntryKind.ofType]

end

end Disk

/-! ## File systems -/

namespace FileSystem

/-- Different things lie at different places, and the names on the way to them
are names that the system takes. -/
structure WellFormed (fs : FileSystem) : Prop where
  nodup : (fs.nodes.map Prod.fst).Nodup
  isName : ∀ binding ∈ fs.nodes, ∀ name ∈ binding.1, IsSystemName name

/-- The type of what a path leads to. -/
def typeOf? (fs : FileSystem) (path : Path) : Option FileType :=
  (fs.find path).toOption.map fun found => typeOf found.2

variable {fs : FileSystem} {dir : Path} {place : Place} {name : Bytes} {node : Node}

theorem isDirectory_iff (path : Path) :
    fs.isDirectory path = true ↔ fs.typeOf? path = some .directory := by
  unfold isDirectory typeOf?
  split
  · next hfind => simp [hfind, Except.toOption, typeOf]
  · next hfind =>
    cases hpath : fs.find path with
    | error e => simp [Except.toOption]
    | ok found =>
      obtain ⟨reached, node⟩ := found
      cases node with
      | directory => exact absurd hpath (hfind reached)
      | _ => simp [Except.toOption, typeOf]

theorem nameIn?_eq_some_iff {outer inner : Place} :
    nameIn? outer inner = some name ↔ inner = outer ++ [name] := by
  rcases List.eq_nil_or_concat inner with rfl | ⟨front, last, rfl⟩
  · simp [nameIn?]
  · rw [List.concat_eq_append, nameIn?, List.getLast?_concat, List.dropLast_concat]
    simp

theorem mem_contents_iff :
    (name, node) ∈ fs.contents place ↔ (place ++ [name], node) ∈ fs.nodes := by
  rw [contents, List.mem_filterMap]
  constructor
  · rintro ⟨⟨inner, found⟩, hmem, hname⟩
    obtain ⟨_, hin, hpair⟩ := Option.map_eq_some_iff.mp hname
    cases hpair
    rwa [← nameIn?_eq_some_iff.mp hin]
  · intro hmem
    refine ⟨(place ++ [name], node), hmem, ?_⟩
    rw [nameIn?_eq_some_iff.mpr rfl, Option.map_some]

namespace WellFormed

theorem node?_of_mem (h : fs.WellFormed) (hmem : (place, node) ∈ fs.nodes) :
    fs.node? place = some node := by
  obtain ⟨before, after, hsplit⟩ := List.append_of_mem hmem
  refine List.lookup_eq_some_iff.mpr ⟨before, after, hsplit, fun binding hbinding => ?_⟩
  have hnodup := h.nodup
  rw [hsplit, List.map_append, List.map_cons, List.nodup_middle, List.nodup_cons] at hnodup
  have hne : place ≠ binding.1 := fun heq =>
    hnodup.1 (List.mem_append_left _ (List.mem_map.mpr ⟨binding, hbinding, heq.symm⟩))
  simpa using hne

theorem isName_of_mem (h : fs.WellFormed) (hmem : (name, node) ∈ fs.contents place) :
    IsSystemName name :=
  h.isName _ (mem_contents_iff.mp hmem) name (by simp)

theorem nodup_contents (h : fs.WellFormed) (place : Place) :
    ((fs.contents place).map Prod.fst).Nodup := by
  have hnames : (fs.contents place).map Prod.fst
      = (fs.nodes.map Prod.fst).filterMap (nameIn? place) := by
    rw [contents, List.map_filterMap, List.filterMap_map]
    refine List.filterMap_congr fun binding _ => ?_
    rw [Option.map_map]
    exact Option.map_id'
  rw [hnames]
  refine h.nodup.filterMap fun inner other name hinner hother => ?_
  rw [nameIn?_eq_some_iff.mp hinner, nameIn?_eq_some_iff.mp hother]

/-- What the walker of a file system comes by for an entry. -/
theorem meets_walkItem (h : fs.WellFormed) (hdir : fs.find dir = .ok (place, .directory))
    (hmem : (name, node) ∈ fs.contents place)
    (hfits : (dir.join name).bytes.length ≤ longestPath) :
    Disk.Meets (dir.join name) name (fs.typeOf? (dir.join name))
      (fs.walkItem dir place name node) := by
  have hname := h.isName_of_mem hmem
  have hnode := h.node?_of_mem (mem_contents_iff.mp hmem)
  have hentry : (∀ target, node ≠ .link target) →
      fs.typeOf? (dir.join name) = some (typeOf node) := fun hlink => by
    rw [typeOf?, find_join hnode hlink hname hdir hfits]
    rfl
  cases node with
  | link target =>
    cases hfind : fs.find (dir.join name) with
    | error e =>
      simp only [walkItem, typeOf?, hfind]
      exact .unresolved
    | ok found =>
      obtain ⟨reached, node⟩ := found
      simp only [walkItem, typeOf?, hfind]
      by_cases hplace : reached = place
      · -- the link leads to the directory itself
        obtain ⟨-, -, hnode⟩ := find_eq_ok_iff.mp hfind
        obtain ⟨-, -, hdirectory⟩ := find_eq_ok_iff.mp hdir
        obtain rfl : node = .directory := by
          rw [hplace, hdirectory] at hnode
          exact (Option.some.inj hnode).symm
        rw [if_pos hplace]
        exact .loop
      · rw [if_neg hplace]
        exact .item
  | directory | file | unreadable | pipe =>
    rw [hentry (by simp)]
    exact .item

/-- **The walker of a file system keeps to what is said of walkers.** -/
theorem holds_contents (h : fs.WellFormed) (hdir : fs.find dir = .ok (place, .directory))
    (hfits : ∀ item ∈ fs.contents place, (dir.join item.1).bytes.length ≤ longestPath) :
    fs.disk.Holds fs.typeOf? dir ((fs.contents place).map Prod.fst) where
  isName := by
    rw [List.forall_mem_map]
    exact fun item hitem => (h.isName_of_mem hitem).1
  nodup := h.nodup_contents place
  isDirectory_iff _ _ := isDirectory_iff _
  walk hdash := by
    refine ⟨⟨0, dir.fileName?.getD dir.bytes, some .directory⟩,
      (fs.contents place).map fun item => fs.walkItem dir place item.1 item.2, rfl, ?_, ?_⟩
    · change fs.walkOver dir = _
      unfold walkOver
      rw [hdash, hdir]
      rfl
    · rw [List.forall₂_map_left_iff, List.forall₂_map_right_iff, List.forall₂_same]
      exact fun item hitem => h.meets_walkItem hdir hitem (hfits item hitem)
  walk_dash hdash := ⟨⟨0, dir.fileName?.getD dir.bytes, none⟩, rfl, if_pos hdash⟩

end WellFormed

end FileSystem

namespace Disk

section

open FileSystem

theorem wellFormed_crooked : crooked.WellFormed := ⟨by decide, by decide⟩

/-- Each of the crooked entries is listed: the links that lead nowhere and back
to the directory, the file that cannot be read, and the directory. -/
theorem list_of_holds_crooked : ∃ entries,
    crooked.disk.Holds crooked.typeOf? (.ofString "r")
        [Utf8.ofString "a", Utf8.ofString "b", Utf8.ofString "m.j", Utf8.ofString "s"] ∧
      crooked.disk.answers.list (.ofString "r") = .ok entries ∧
      entries.map Entry.name
        = [Utf8.ofString "a", Utf8.ofString "b", Utf8.ofString "m.j", Utf8.ofString "s"] ∧
      ∀ e ∈ entries, (e.name = Utf8.ofString "a" → e.kind = .other) ∧
        (e.name = Utf8.ofString "b" → e.kind = .directory) ∧
        (e.name = Utf8.ofString "m.j" → e.kind = .file) := by
  have hdir : crooked.find (.ofString "r") = .ok ([Utf8.ofString "r"], .directory) := rfl
  have hholds := wellFormed_crooked.holds_contents hdir (by decide)
  obtain ⟨entries, hlist, hnames, -, hkinds⟩ := (list_of_holds hholds).1 (by decide)
  refine ⟨entries, hholds, hlist, hnames, fun e he => ?_⟩
  obtain ⟨hdirectory, hfile, hother⟩ := hkinds e he
  refine ⟨fun h => hother.mpr (.inr ?_), fun h => hdirectory.mpr ?_, fun h => hfile.mpr ?_⟩
  all_goals rw [h]; rfl

/-- A directory whose path is a dash, with a file in it. -/
def dashed : FileSystem where
  nodes := [([], .directory), ([Utf8.ofString "-"], .directory),
    ([Utf8.ofString "-", Utf8.ofString "A.java"], .file (Utf8.ofString "public"))]
  current := []

/-- The file is not in the listing of the directory, unless that goes by another
path. -/
theorem list_dashed : dashed.WellFormed ∧ dashed.answers.isDirectory (.ofString "-") = true ∧
    (dashed.contents [Utf8.ofString "-"]).map Prod.fst = [Utf8.ofString "A.java"] ∧
    dashed.answers.list (.ofString "-") = .ok [] ∧
    dashed.answers.list (.ofString "./-") = .ok [⟨Utf8.ofString "A.java", .file⟩] :=
  ⟨⟨by decide, by decide⟩, rfl, by decide, rfl, rfl⟩

end

end Disk

end KeywordSurvey
