import KeywordSurvey.Proofs.SourceTree.Descent
import KeywordSurvey.Proofs.SourceTree.Walk
import Mathlib.Data.List.Nodup

/-!
# Names in a listing

What is promised of the listings of a tree, and what becomes of it when the
names of a listing are told apart into files and subdirectories and put in
order.
-/

namespace KeywordSurvey

namespace SourceTree

/-- The listings hold names, and no name twice. -/
structure WellNamed (tree : SourceTree) : Prop where
  isName : ∀ {dir : Path} {entries : List Entry}, tree.list dir = .ok entries →
    ∀ e ∈ entries, IsName e.name
  nodup : ∀ {dir : Path} {entries : List Entry}, tree.list dir = .ok entries →
    (entries.map Entry.name).Nodup

theorem list_of_expanded {tree : SourceTree} {v : Visit} {entries : List Entry}
    (hv : tree.standing v = .expanded entries) : tree.list v.dir = .ok entries := by
  obtain ⟨-, -, hlist, -⟩ := standing_eq_expanded_iff.mp hv
  exact hlist

end SourceTree

section

variable {selector : Selector} {entries : List Entry} {name : Bytes}

theorem perm_subdirectories (entries : List Entry) :
    (subdirectories entries).Perm
      ((entries.filter fun e => e.kind == .directory).map Entry.name) :=
  perm_sortNames _

theorem mem_subdirectories_iff :
    name ∈ subdirectories entries ↔ ∃ e ∈ entries, e.kind = .directory ∧ e.name = name := by
  simp [(perm_subdirectories entries).mem_iff, and_assoc]

theorem Selector.mem_files_iff :
    name ∈ selector.files entries ↔
      ∃ e ∈ entries, selector.takes e = true ∧ e.name = name := by
  simp [(selector.perm_files entries).mem_iff, and_assoc]

variable (hnodup : (entries.map Entry.name).Nodup)

include hnodup

theorem nodup_subdirectories : (subdirectories entries).Nodup :=
  (perm_subdirectories entries).nodup_iff.mpr (hnodup.sublist (List.filter_sublist.map _))

theorem Selector.nodup_files : (selector.files entries).Nodup :=
  (selector.perm_files entries).nodup_iff.mpr (hnodup.sublist (List.filter_sublist.map _))

/-- An entry is a subdirectory or a file, and not both. -/
theorem Selector.not_mem_files (h : name ∈ subdirectories entries) :
    name ∉ selector.files entries := by
  intro hfile
  obtain ⟨e, he, hkind, rfl⟩ := mem_subdirectories_iff.mp h
  obtain ⟨e', he', htakes, hname⟩ := Selector.mem_files_iff.mp hfile
  have hsame : e' = e := List.inj_on_of_nodup_map hnodup he' he hname
  rw [hsame, takes, hkind] at htakes
  cases htakes

/-- The names of the subdirectories increase. -/
theorem pairwise_subdirectories : (subdirectories entries).Pairwise (· < ·) := by
  have hle := pairwise_sortNames ((entries.filter fun e => e.kind == .directory).map Entry.name)
  refine (hle.and (nodup_subdirectories hnodup)).imp fun ⟨hle, hne⟩ => ?_
  exact (List.le_iff_lt_or_eq.mp (of_decide_eq_true hle)).resolve_right hne

end

namespace SourceTree.WellNamed

variable {tree : SourceTree} {dir : Path} {entries : List Entry} {selector : Selector}
variable {name : Bytes}

theorem isName_subdirectory (h : tree.WellNamed) (hlist : tree.list dir = .ok entries)
    (hname : name ∈ subdirectories entries) : IsName name := by
  obtain ⟨e, he, -, rfl⟩ := mem_subdirectories_iff.mp hname
  exact h.isName hlist e he

theorem isName_file (h : tree.WellNamed) (hlist : tree.list dir = .ok entries)
    (hname : name ∈ selector.files entries) : IsName name := by
  obtain ⟨e, he, -, rfl⟩ := Selector.mem_files_iff.mp hname
  exact h.isName hlist e he

end SourceTree.WellNamed

end KeywordSurvey
