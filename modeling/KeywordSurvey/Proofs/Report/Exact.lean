import Mathlib.Algebra.BigOperators.Group.List.Basic
import KeywordSurvey.Report

/-!
# Exact totals

A sum of reports that is there is the exact one, number by number: every
checked addition is characterised by what it does to `Report.exact`. The
totals themselves are added without a limit and form a commutative monoid, so
that the order of the items and their grouping do not matter.
-/

namespace KeywordSurvey

/-! ## Totals -/

namespace PerKeyword

instance : AddCommMonoid (PerKeyword Nat) where
  add_assoc p q r := ext_get fun k => by simp [Nat.add_assoc]
  zero_add p := ext_get fun k => by simp
  add_zero p := ext_get fun k => by simp
  add_comm p q := ext_get fun k => by simp [Nat.add_comm]
  nsmul := nsmulRec

end PerKeyword

namespace Totals

instance : AddCommMonoid Totals where
  add_assoc s t u := by ext1 <;> simp [add_assoc]
  zero_add t := by ext1 <;> simp
  add_zero t := by ext1 <;> simp
  add_comm s t := by ext1 <;> simp [add_comm]
  nsmul := nsmulRec

theorem sum_append (a b : List Totals) : sum (a ++ b) = sum a + sum b :=
  List.sum_append

/-- The items can be taken in any order. -/
theorem sum_perm {a b : List Totals} (h : a.Perm b) : sum a = sum b := h.sum_eq

/-- The items can be summed group by group. -/
theorem sum_flatMap {α β : Type} (f : β → Totals) (g : α → List β) (l : List α) :
    sum ((l.flatMap g).map f) = sum (l.map fun a => sum ((g a).map f)) := by
  induction l with
  | nil => rfl
  | cons a l ih => simp [sum_append, ih]

/-- Every file counts once. -/
theorem files_sum_ofFile (files : List SourceFile) :
    (sum (files.map ofFile)).files = files.length := by
  induction files with
  | nil => rfl
  | cons file files ih => simp [ih, ofFile, Nat.add_comm]

end Totals

/-! ## Checked sums -/

theorem PerKeyword.sequence_eq_some_iff {α : Type} {p : PerKeyword (Option α)}
    {q : PerKeyword α} : p.sequence = some q ↔ ∀ k, p.get k = some (q.get k) := by
  obtain ⟨a, b, c, d⟩ := p
  obtain ⟨a', b', c', d'⟩ := q
  constructor
  · intro h k
    cases a <;> cases b <;> cases c <;> cases d <;> simp [sequence] at h
    obtain ⟨rfl, rfl, rfl, rfl⟩ := h
    cases k <;> rfl
  · intro h
    have h1 : a = some a' := h .publicWord
    have h2 : b = some b' := h .privateWord
    have h3 : c = some c' := h .tryWord
    have h4 : d = some d' := h .catchWord
    subst h1 h2 h3 h4
    rfl

namespace Tally

@[simp] theorem get_exact (t : Tally) (k : Keyword) : t.exact.get k = (t.get k).val :=
  PerKeyword.get_map _ t k

theorem ofExact?_eq_some_iff {p : PerKeyword Nat} {t : Tally} :
    ofExact? p = some t ↔ t.exact = p := by
  rw [ofExact?, PerKeyword.sequence_eq_some_iff]
  constructor
  · intro h
    refine PerKeyword.ext_get fun k => ?_
    have hk := h k
    rw [PerKeyword.get_map] at hk
    rw [get_exact, Count.ofNat?_eq_some_iff.mp hk]
  · intro h k
    rw [PerKeyword.get_map, ← h]
    exact Count.ofNat?_eq_some_iff.mpr (get_exact t k).symm

theorem add?_eq_some_iff {s t u : Tally} :
    add? s t = some u ↔ u.exact = s.exact + t.exact := by
  rw [add?, PerKeyword.sequence_eq_some_iff]
  constructor
  · intro h
    refine PerKeyword.ext_get fun k => ?_
    have hk := h k
    rw [PerKeyword.get_zipWith] at hk
    simp [Count.add?_eq_some_iff.mp hk]
  · intro h k
    rw [PerKeyword.get_zipWith, Count.add?_eq_some_iff, ← get_exact, h]
    simp

/-- An occurrence is recorded exactly, if it is. -/
theorem record?_eq_some_iff {t u : Tally} {k : Keyword} :
    t.record? k = some u ↔ u.exact = t.exact.record k := by
  rw [record?, Option.map_eq_some_iff]
  constructor
  · rintro ⟨c, hc, rfl⟩
    have hval : c.val = (t.get k).val + 1 := Count.add?_eq_some_iff.mp hc
    ext j
    rw [get_exact, PerKeyword.get_set, PerKeyword.get_record, get_exact]
    split
    · next h => rw [← h, hval]
    · rfl
  · intro h
    have hget : ∀ j, (u.get j).val = (t.get j).val + if k = j then 1 else 0 := fun j => by
      rw [← get_exact, h, PerKeyword.get_record, get_exact]
    refine ⟨u.get k, Count.add?_eq_some_iff.mpr (by rw [hget, if_pos rfl]; rfl), ?_⟩
    refine PerKeyword.ext_get fun j => ?_
    rw [PerKeyword.get_set]
    split
    · next hj => rw [hj]
    · next hj => exact Count.ext (by rw [hget, if_neg hj, Nat.add_zero])

/-- The sum of all counts of a tally is the exact one, if it is there. -/
theorem total?_eq_some_iff {t : Tally} {n : Count} :
    t.total? = some n ↔
      n.val = t.publicWord.val + t.privateWord.val + t.tryWord.val + t.catchWord.val := by
  have hsteps : t.total? = (t.publicWord.add? t.privateWord).bind fun two =>
      (two.add? t.tryWord).bind fun three => three.add? t.catchWord := by
    rw [total?]
    cases t.publicWord.add? t.privateWord with
    | none => rfl
    | some two => cases hthree : two.add? t.tryWord <;> simp [hthree]
  simp only [hsteps, Option.bind_eq_some_iff, Count.add?_eq_some_iff]
  constructor
  · rintro ⟨two, htwo, three, hthree, hn⟩
    rw [hn, hthree, htwo]
  · intro hn
    have hfits := n.fits
    exact ⟨⟨t.publicWord.val + t.privateWord.val, by omega⟩, rfl,
      ⟨t.publicWord.val + t.privateWord.val + t.tryWord.val, by omega⟩, rfl, hn⟩

end Tally

namespace Report

@[simp] theorem exact_empty : empty.exact = 0 := rfl

/-- **A sum that is there is the exact one**, and only that. -/
theorem add?_eq_some_iff {r s t : Report} :
    add? r s = some t ↔ t.exact = r.exact + s.exact := by
  obtain ⟨size, tally, files⟩ := t
  have hexact : (mk size tally files).exact = r.exact + s.exact ↔
      size.val = r.size.val + s.size.val ∧ tally.exact = r.tally.exact + s.tally.exact ∧
        files.val = r.files.val + s.files.val := by
    rw [Totals.ext_iff]
    rfl
  rw [hexact, ← Count.add?_eq_some_iff, ← Tally.add?_eq_some_iff, ← Count.add?_eq_some_iff]
  unfold add?
  cases r.size.add? s.size <;> cases r.tally.add? s.tally <;>
    cases r.files.add? s.files <;> simp

/-- The report of a file has the size and the keywords of the file. -/
theorem exact_ofFile {file : SourceFile} {report : FileReport}
    (h : FileReport.ofSource? file = some report) :
    (ofFile report).exact = Totals.ofFile file := by
  simp only [FileReport.ofSource?, Option.map_eq_some_iff] at h
  obtain ⟨tally, htally, rfl⟩ := h
  rw [Tally.ofExact?_eq_some_iff] at htally
  simp only [ofFile, exact, Totals.ofFile, htally]
  rfl

end Report

end KeywordSurvey
