import KeywordSurvey.Proofs.SourceTree.Descent
import KeywordSurvey.Proofs.Text.Ascii
import KeywordSurvey.Proofs.Text.Utf8
import KeywordSurvey.Selector
import Mathlib.Data.List.Basic

/-!
# Endings of paths

A selector looks at the name of a file and at nothing in front of it. It could
as well look at the whole path (`Selector.selects_iff_suffix_join`): between the
name and what stands in front of it there is a slash, and there is none in the
ending of a selector, so an ending that fits the path fits within the name. With
slashes in endings this would not be so (`Path.forall_suffix_join_iff`), which
is why they are refused.
-/

namespace KeywordSurvey

/-- An ASCII character is in a text if its byte is among the bytes. -/
theorem Utf8.mem_ofString_iff {c : Char} (hpos : 0 < c.toNat) (hascii : c.toNat < 0x80)
    (s : String) : c.toNat.toUInt8 ∈ Utf8.ofString s ↔ c ∈ s.toList := by
  rw [← List.count_pos_iff, ← count_decodeLossy hpos hascii, ofString, decodeLossy_encode,
    List.count_pos_iff]

namespace Path

variable {ending name : Bytes}

/-! ## Endings without a slash -/

/-- In front of a name there is nothing, or a slash. -/
theorem bytes_join_cases (h : IsName name) (dir : Path) :
    (dir.join name).bytes = name ∨ ∃ front, (dir.join name).bytes = front ++ slash :: name := by
  rw [bytes_join h]
  by_cases hempty : dir.bytes = []
  · exact .inl (by simp [stem, hempty])
  · obtain ⟨front, hstem, -⟩ := exists_stem hempty
    exact .inr ⟨front, by rw [hstem, ← List.append_cons]⟩

/-- An ending without a slash does not reach beyond the name. -/
theorem suffix_of_suffix_join (hslash : slash ∉ ending) (hname : IsName name) {dir : Path}
    (h : ending <:+ (dir.join name).bytes) : ending <:+ name := by
  rcases bytes_join_cases hname dir with hbytes | ⟨front, hbytes⟩
  · rwa [hbytes] at h
  · rw [hbytes] at h
    rcases List.suffix_or_suffix_of_suffix h (List.suffix_append front (slash :: name)) with
      hshort | hlong
    · rcases List.suffix_cons_iff.mp hshort with rfl | hwithin
      · exact absurd List.mem_cons_self hslash
      · exact hwithin
    -- an ending that is longer than the name has the slash in it
    · exact absurd (hlong.subset List.mem_cons_self) hslash

/-! ## Endings with a slash -/

/-- What stands behind the last slash. -/
theorem exists_append_slash (h : slash ∈ ending) :
    ∃ front last, ending = front ++ slash :: last ∧ slash ∉ last := by
  obtain ⟨back, front, hreverse, hback⟩ := List.eq_append_cons_of_mem (List.mem_reverse.mpr h)
  refine ⟨front.reverse, back.reverse, ?_, by rwa [List.mem_reverse]⟩
  rw [← List.reverse_reverse ending, hreverse, List.reverse_append, List.reverse_cons,
    List.append_assoc, List.singleton_append]

/-- No path of an entry ends in a slash. -/
theorem not_suffix_join_of_getLast? (hlast : ending.getLast? = some slash) (hname : IsName name)
    (dir : Path) : ¬ ending <:+ (dir.join name).bytes := by
  rintro ⟨front, hbytes⟩
  have hjoin : (dir.join name).bytes.getLast? = some slash := by
    rw [← hbytes, List.getLast?_append, hlast, Option.some_or]
  rw [bytes_join hname, List.getLast?_append_of_ne_nil _ hname.1] at hjoin
  exact hname.2 (List.mem_of_getLast? hjoin)

/-- **An ending can be looked for in names alone** instead of in paths exactly if
there is no slash in it that something stands behind. One that ends in a slash is
found in neither. -/
theorem forall_suffix_join_iff (ending : Bytes) :
    (∀ (dir : Path) (name : Bytes), IsName name →
        (ending <:+ name ↔ ending <:+ (dir.join name).bytes)) ↔
      slash ∉ ending ∨ ending.getLast? = some slash := by
  constructor
  · intro hall
    by_contra hslash
    rw [not_or, not_not] at hslash
    obtain ⟨hmem, hlast⟩ := hslash
    obtain ⟨front, last, rfl, hnone⟩ := exists_append_slash hmem
    have hname : IsName last := by
      refine ⟨?_, hnone⟩
      rintro rfl
      exact hlast List.getLast?_concat
    -- the ending is itself a path, of an entry of what stands before its last slash
    have hjoin : ((⟨front ++ [slash]⟩ : Path).join last).bytes = front ++ slash :: last := by
      rw [bytes_join hname, List.append_cons]
      simp [stem]
    have hpath : front ++ slash :: last <:+ ((⟨front ++ [slash]⟩ : Path).join last).bytes :=
      ⟨[], hjoin.symm⟩
    have hwithin := (hall _ last hname).mpr hpath
    exact hnone (hwithin.subset (List.mem_append_right front List.mem_cons_self))
  · rintro (hslash | hlast) dir name hname
    · exact ⟨fun h => h.trans (suffix_join dir name), suffix_of_suffix_join hslash hname⟩
    · have hpath := not_suffix_join_of_getLast? hlast hname dir
      exact ⟨fun h => absurd (h.trans (suffix_join dir name)) hpath, fun h => absurd h hpath⟩

end Path

/-! ## The endings of selectors -/

namespace Selector

/-- An ending is good if it is not empty and holds no separator. -/
theorem refusal?_eq_none_iff {ending : String} :
    refusal? ending = none ↔ ending ≠ "" ∧ '/' ∉ ending.toList ∧ '\\' ∉ ending.toList := by
  have hsep : ending.toList.any (fun c => c == '/' || c == '\\') = true ↔
      '/' ∈ ending.toList ∨ '\\' ∈ ending.toList := by
    simp [List.any_eq_true, and_or_left, exists_or]
  unfold refusal?
  by_cases hempty : ending = ""
  · simp [hempty]
  · rw [if_neg (by simpa using hempty)]
    by_cases h : '/' ∈ ending.toList ∨ '\\' ∈ ending.toList
    · rw [if_pos (hsep.mpr h)]
      simp only [reduceCtorEq, false_iff]
      exact fun hnone => h.elim hnone.2.1 hnone.2.2
    · rw [if_neg (mt hsep.mp h)]
      rw [not_or] at h
      simp only [true_iff]
      exact ⟨hempty, h⟩

theorem ofEnding_eq_ok_iff {ending : String} {s : Selector} :
    ofEnding ending = .ok s ↔ s.ending = ending := by
  obtain ⟨own, accepted⟩ := s
  unfold ofEnding
  split
  · next h =>
    constructor
    · intro hok
      cases hok
      rfl
    · rintro rfl
      rfl
  · next reason h =>
    constructor
    · intro herror
      cases herror
    · rintro rfl
      rw [accepted] at h
      cases h

theorem slash_not_mem_ending (s : Selector) : Path.slash ∉ Utf8.ofString s.ending := by
  obtain ⟨-, hslash, -⟩ := refusal?_eq_none_iff.mp s.accepted
  exact mt (Utf8.mem_ofString_iff (c := '/') (by decide) (by decide) s.ending).mp hslash

theorem selects_iff {s : Selector} {name : Bytes} :
    s.selects name = true ↔ Utf8.ofString s.ending <:+ name :=
  List.isSuffixOf_iff_suffix

/-- **A name is selected exactly if its path ends as it should**, whatever the
directory is called and whatever bytes the name is made of. A name that is
shorter than the ending is not, and no directory makes up for what it lacks. -/
theorem selects_iff_suffix_join {ending : String} {s : Selector} (hs : ofEnding ending = .ok s)
    {name : Bytes} (hname : IsName name) (dir : Path) :
    (s.selects name = true ↔ Utf8.ofString ending <:+ (dir.join name).bytes) ∧
      (name.length < (Utf8.ofString ending).length →
        s.selects name = false ∧ ¬ Utf8.ofString ending <:+ (dir.join name).bytes) := by
  obtain rfl := ofEnding_eq_ok_iff.mp hs
  have halike : Utf8.ofString s.ending <:+ name ↔ Utf8.ofString s.ending <:+ (dir.join name).bytes :=
    (Path.forall_suffix_join_iff _).mpr (.inl s.slash_not_mem_ending) dir name hname
  refine ⟨selects_iff.trans halike, fun hshort => ?_⟩
  have hnot : ¬ Utf8.ofString s.ending <:+ name := by
    intro h
    have hle := h.length_le
    omega
  exact ⟨Bool.eq_false_iff.mpr (mt selects_iff.mp hnot), mt halike.mpr hnot⟩

/-- The directory `src/.` does not make a `.java` of the name `java`. What is no
text in a name does not matter. -/
theorem selects_iff_suffix_join_short :
    ofEnding ".java" = .ok standard ∧ IsName (Utf8.ofString "java") ∧
    (Utf8.ofString "java").length < (Utf8.ofString ".java").length ∧
    standard.selects (Utf8.ofString "java") = false ∧
    ¬ Utf8.ofString ".java" <:+ ((Path.ofString "src/.").join (Utf8.ofString "java")).bytes ∧
    IsName (0xFF :: Utf8.ofString ".java") ∧
    Utf8.ofString ".java"
      <:+ ((Path.ofString "src/").join (0xFF :: Utf8.ofString ".java")).bytes := by
  have hstandard : ofEnding ".java" = .ok standard := ofEnding_eq_ok_iff.mpr rfl
  have hname : IsName (Utf8.ofString "java") := by decide +kernel
  have hlength : (Utf8.ofString "java").length < (Utf8.ofString ".java").length := by
    decide +kernel
  have hstrange : IsName (0xFF :: Utf8.ofString ".java") := by decide +kernel
  obtain ⟨hselects, hpath⟩ :=
    (selects_iff_suffix_join hstandard hname (.ofString "src/.")).2 hlength
  have hends := (selects_iff_suffix_join hstandard hstrange (.ofString "src/")).1.mp
    (by decide +kernel)
  exact ⟨hstandard, hname, hlength, hselects, hpath, hstrange, hends⟩

end Selector

end KeywordSurvey
