import Mathlib.Algebra.GroupWithZero.Nat
import Mathlib.Data.List.FinRange
import KeywordSurvey.Proofs.Report.Fits

/-!
# Ways of adding up

Reports can be added in pairs, into a new report or in place, and in groups,
handed over or looked at where they are stored. A `Grouping` is a way of adding
up some reports, put together from these. Which way is chosen makes no
difference, and neither does the order: the sum is there exactly if the exact
totals fit, and then it has these totals (`Grouping.value?_of_perm`).
-/

namespace KeywordSurvey

namespace Totals

/-! ## The numbers of a sum -/

section

variable (items : List Totals)

theorem size_sum : (sum items).size = (items.map size).sum := by
  induction items with
  | nil => rfl
  | cons t items ih => rw [sum_cons, size_add, ih, List.map_cons, List.sum_cons]

theorem get_tally_sum (k : Keyword) :
    (sum items).tally.get k = (items.map fun t => t.tally.get k).sum := by
  induction items with
  | nil => exact PerKeyword.get_zero k
  | cons t items ih =>
    rw [sum_cons, tally_add, PerKeyword.get_add, ih, List.map_cons, List.sum_cons]

theorem files_sum : (sum items).files = (items.map files).sum := by
  induction items with
  | nil => rfl
  | cons t items ih => rw [sum_cons, files_add, ih, List.map_cons, List.sum_cons]

end

end Totals

namespace Report

/-- Raises the report that is at hand. -/
def raise (r : Report) : StateT Report Option Unit := fun total =>
  (total.add? r).map ((), ·)

/-- Adds up the reports in some places of a store. -/
def sumAt? (store : List Report) (places : List (Fin store.length)) : Option Report :=
  sum? (places.map store.get)

/-- The report has the totals of all these reports. -/
theorem exact_eq_sum_iff {t : Report} {reports : List Report} :
    t.exact = Totals.sum (reports.map exact) ↔
      t.size.val = (reports.map fun r => r.size.val).sum ∧
      (∀ k, (t.tally.get k).val = (reports.map fun r => (r.tally.get k).val).sum) ∧
      t.files.val = (reports.map fun r => r.files.val).sum := by
  rw [Totals.ext_iff, PerKeyword.ext_get_iff, Totals.size_sum, Totals.files_sum]
  simp only [Totals.get_tally_sum, List.map_map, Function.comp_def, exact, Tally.get_exact]

/-- One of the six totals of these reports is too large. -/
theorem not_fits_sum_iff {reports : List Report} :
    ¬ (Totals.sum (reports.map exact)).Fits ↔
      Count.limit ≤ (reports.map fun r => r.size.val).sum ∨
      (∃ k, Count.limit ≤ (reports.map fun r => (r.tally.get k).val).sum) ∨
      Count.limit ≤ (reports.map fun r => r.files.val).sum := by
  rw [Totals.not_fits_iff, Totals.size_sum, Totals.files_sum]
  simp only [Totals.get_tally_sum, List.map_map, Function.comp_def, exact, Tally.get_exact]

end Report

/-- A way of adding up reports. -/
inductive Grouping where
  | report (r : Report)
  /-- One sum and another. -/
  | plus (left right : Grouping)
  /-- One sum, raised by another. -/
  | raised (left right : Grouping)
  /-- The sum of a group. -/
  | group (parts : List Grouping)
  /-- The sum of a group that stays where it is. -/
  | stored (parts : List Grouping)

namespace Grouping

mutual

/-- The reports that are added up, from left to right. -/
def reports : Grouping → List Report
  | report r => [r]
  | plus left right => left.reports ++ right.reports
  | raised left right => left.reports ++ right.reports
  | group parts => reportsAll parts
  | stored parts => reportsAll parts

/-- The reports of several groupings. -/
def reportsAll : List Grouping → List Report
  | [] => []
  | part :: parts => part.reports ++ reportsAll parts

end

mutual

/-- What it comes to. One sum on the way that does not fit leaves nothing. -/
def value? : Grouping → Option Report
  | report r => some r
  | plus left right => do
    let left ← left.value?
    let right ← right.value?
    left.add? right
  | raised left right => do
    let left ← left.value?
    let right ← right.value?
    let ((), total) ← (Report.raise right).run left
    some total
  | group parts => do
    let values ← values? parts
    Report.sum? values
  | stored parts => do
    let values ← values? parts
    Report.sumAt? values (List.finRange values.length)

/-- What several groupings come to. -/
def values? : List Grouping → Option (List Report)
  | [] => some []
  | part :: parts => do
    let value ← part.value?
    let values ← values? parts
    some (value :: values)

end

/-! ## The steps -/

theorem value?_raised (left right : Grouping) :
    (raised left right).value? = (plus left right).value? := by
  rw [value?, value?]
  cases left.value? with
  | none => rfl
  | some l =>
    cases right.value? with
    | none => rfl
    | some r => cases h : l.add? r <;> simp [Report.raise, StateT.run, h]

theorem value?_stored (parts : List Grouping) : (stored parts).value? = (group parts).value? := by
  rw [value?, value?]
  cases values? parts with
  | none => rfl
  | some values =>
    show Report.sumAt? values _ = Report.sum? values
    rw [Report.sumAt?, ← List.ofFn_eq_map, List.ofFn_get]

theorem value?_plus_eq_some_iff {left right : Grouping} {t : Report} :
    (plus left right).value? = some t ↔
      ∃ l, left.value? = some l ∧ ∃ r, right.value? = some r ∧ l.add? r = some t := by
  simp only [value?, Option.bind_eq_bind, Option.bind_eq_some_iff]

theorem value?_group_eq_some_iff {parts : List Grouping} {t : Report} :
    (group parts).value? = some t ↔
      ∃ values, values? parts = some values ∧
        values.foldlM Report.add? Report.empty = some t := by
  simp only [value?, Option.bind_eq_bind, Option.bind_eq_some_iff, Report.sum?]

/-! ## The whole -/

/-- The exact totals of the reports that are added up. -/
def totals (g : Grouping) : Totals := Totals.sum (g.reports.map Report.exact)

/-- The exact totals of several groupings. -/
def totalsAll (parts : List Grouping) : Totals :=
  Totals.sum ((reportsAll parts).map Report.exact)

theorem totals_plus (left right : Grouping) :
    (plus left right).totals = left.totals + right.totals := by
  rw [totals, reports, List.map_append, Totals.sum_append, totals, totals]

theorem totalsAll_cons (part : Grouping) (parts : List Grouping) :
    totalsAll (part :: parts) = part.totals + totalsAll parts := by
  rw [totalsAll, reportsAll, List.map_append, Totals.sum_append, totals, totalsAll]

/-- Two sums that are exact if they fit have a sum that is exact if it fits. -/
theorem value?_plus_of_parts {left right : Grouping}
    (hleft : ∀ {l}, left.value? = some l ↔ l.exact = left.totals)
    (hright : ∀ {r}, right.value? = some r ↔ r.exact = right.totals) {t : Report} :
    (plus left right).value? = some t ↔ t.exact = (plus left right).totals := by
  rw [value?_plus_eq_some_iff, totals_plus]
  constructor
  · rintro ⟨l, hl, r, hr, ht⟩
    rw [Report.add?_eq_some_iff.mp ht, hleft.mp hl, hright.mp hr]
  · intro ht
    have hfits : (left.totals + right.totals).Fits := ht ▸ t.fits_exact
    obtain ⟨l, hl⟩ := Report.exists_exact hfits.of_add.1
    obtain ⟨r, hr⟩ := Report.exists_exact hfits.of_add.2
    exact ⟨l, hleft.mpr hl, r, hright.mpr hr, Report.add?_eq_some_iff.mpr (by rw [ht, hl, hr])⟩

/-- A group whose loop is exact has a sum that is exact if it fits. -/
theorem value?_group_of_parts {parts : List Grouping}
    (hparts : ∀ {start t : Report},
      (∃ values, values? parts = some values ∧ values.foldlM Report.add? start = some t) ↔
        t.exact = start.exact + totalsAll parts) {t : Report} :
    (group parts).value? = some t ↔ t.exact = (group parts).totals := by
  rw [value?_group_eq_some_iff, hparts, Report.exact_empty, zero_add]
  rfl

mutual

/-- **A grouping comes to its exact totals, if they fit.** If they do, then all
sums on the way fit as well, being parts of the whole. -/
theorem value?_eq_some_iff : (g : Grouping) → ∀ {t : Report},
    g.value? = some t ↔ t.exact = g.totals
  | report r, t => by
    rw [value?, Option.some.injEq, totals, reports, List.map_singleton, Totals.sum_cons,
      Totals.sum_nil, add_zero]
    exact ⟨fun h => h ▸ rfl, fun h => (Report.exact_injective h).symm⟩
  | plus left right, t =>
    value?_plus_of_parts (value?_eq_some_iff left) (value?_eq_some_iff right)
  | raised left right, t => by
    rw [value?_raised]
    exact value?_plus_of_parts (value?_eq_some_iff left) (value?_eq_some_iff right)
  | group parts, t => value?_group_of_parts (values?_eq_some_iff parts)
  | stored parts, t => by
    rw [value?_stored]
    exact value?_group_of_parts (values?_eq_some_iff parts)

/-- The loop over a group comes to the exact totals of its parts and of what it
starts from. -/
theorem values?_eq_some_iff : (parts : List Grouping) → ∀ {start t : Report},
    (∃ values, values? parts = some values ∧ values.foldlM Report.add? start = some t) ↔
      t.exact = start.exact + totalsAll parts
  | [], start, t => by
    have hstart : (∃ values, values? [] = some values ∧
        values.foldlM Report.add? start = some t) ↔ start = t := by
      simp [values?]
    rw [hstart, totalsAll, reportsAll, List.map_nil, Totals.sum_nil, add_zero]
    exact ⟨fun h => h ▸ rfl, fun h => (Report.exact_injective h).symm⟩
  | part :: parts, start, t => by
    rw [totalsAll_cons, ← add_assoc]
    simp only [values?, Option.bind_eq_bind, Option.bind_eq_some_iff, Option.some.injEq]
    constructor
    · rintro ⟨_, ⟨value, hvalue, values, hvalues, rfl⟩, hsum⟩
      rw [List.foldlM_cons, Option.bind_eq_bind, Option.bind_eq_some_iff] at hsum
      obtain ⟨next, hnext, hrest⟩ := hsum
      rw [(values?_eq_some_iff parts).mp ⟨values, hvalues, hrest⟩,
        Report.add?_eq_some_iff.mp hnext, (value?_eq_some_iff part).mp hvalue]
    · intro ht
      have hfits : (start.exact + part.totals).Fits := (ht ▸ t.fits_exact).of_add.1
      obtain ⟨value, hvalue⟩ := Report.exists_exact hfits.of_add.2
      obtain ⟨next, hnext⟩ := Report.exists_exact hfits
      have hparts : t.exact = next.exact + totalsAll parts := by rw [ht, hnext]
      obtain ⟨values, hvalues, hrest⟩ := (values?_eq_some_iff parts).mpr hparts
      refine ⟨value :: values,
        ⟨value, (value?_eq_some_iff part).mpr hvalue, values, hvalues, rfl⟩, ?_⟩
      rw [List.foldlM_cons, Option.bind_eq_bind, Option.bind_eq_some_iff]
      exact ⟨next, Report.add?_eq_some_iff.mpr (by rw [hnext, hvalue]), hrest⟩

end

theorem value?_eq_none_iff {g : Grouping} : g.value? = none ↔ ¬ g.totals.Fits := by
  constructor
  · intro hnone hfits
    obtain ⟨t, ht⟩ := Report.exists_exact hfits
    cases hnone.symm.trans ((value?_eq_some_iff g).mpr ht)
  · intro hfits
    cases hvalue : g.value? with
    | none => rfl
    | some t => exact absurd ((value?_eq_some_iff g).mp hvalue ▸ t.fits_exact) hfits

theorem totals_of_perm {g : Grouping} {reports : List Report} (h : g.reports.Perm reports) :
    g.totals = Totals.sum (reports.map Report.exact) :=
  Totals.sum_perm (h.map Report.exact)

/-! ## Files -/

section

variable {files others : List FileReport} {t : Report}

theorem foldlM_addFile?_eq_some_iff (h : others.Perm files) :
    others.foldlM Report.addFile? Report.empty = some t ↔
      t.exact = Totals.sum ((files.map Report.ofFile).map Report.exact) := by
  have hstep : ∀ (r : Report) (file : FileReport) (t : Report),
      r.addFile? file = some t ↔ t.exact = r.exact + (Report.ofFile file).exact :=
    fun _ _ _ => Report.add?_eq_some_iff
  rw [Report.foldlM_eq_some_iff hstep, Report.exact_empty, zero_add,
    Totals.sum_perm (h.map fun file => (Report.ofFile file).exact), List.map_map]
  rfl

theorem sumFiles?_eq_some_iff (h : others.Perm files) :
    Report.sumFiles? others = some t ↔
      t.exact = Totals.sum ((files.map Report.ofFile).map Report.exact) := by
  rw [Report.sumFiles?, Report.sum?_eq_some_iff,
    Totals.sum_perm ((h.map Report.ofFile).map Report.exact)]

/-- The reports of files count the files. -/
theorem exact_eq_sum_ofFile_iff :
    t.exact = Totals.sum ((files.map Report.ofFile).map Report.exact) ↔
      t.size.val = (files.map fun file => file.size.val).sum ∧
      (∀ k, (t.tally.get k).val = (files.map fun file => (file.tally.get k).val).sum) ∧
      t.files.val = files.length := by
  have hcount : (files.map fun _ => 1).sum = files.length := by simp
  rw [Report.exact_eq_sum_iff]
  simp only [List.map_map, Function.comp_def, Report.ofFile, Count.one, hcount]

end

/-- **All ways of adding up agree**, on the sum and on whether there is one.
However some reports are ordered and grouped, what comes out has their exact
totals. Nothing comes out if one of the six totals is 2^64 or more, and only
then. Reports of files can be added one by one, or summed, or turned into
reports and added up in any order and grouping: all of this comes to the same,
and where it comes to anything, the files are counted and each number is the
sum of theirs. -/
theorem value?_of_perm (reports : List Report) (files : List FileReport) :
    (∀ g : Grouping, g.reports.Perm reports →
      (∀ t, g.value? = some t ↔
        t.size.val = (reports.map fun r => r.size.val).sum ∧
        (∀ k, (t.tally.get k).val = (reports.map fun r => (r.tally.get k).val).sum) ∧
        t.files.val = (reports.map fun r => r.files.val).sum) ∧
      (g.value? = none ↔
        Count.limit ≤ (reports.map fun r => r.size.val).sum ∨
        (∃ k, Count.limit ≤ (reports.map fun r => (r.tally.get k).val).sum) ∨
        Count.limit ≤ (reports.map fun r => r.files.val).sum)) ∧
    ∀ others : List FileReport, others.Perm files →
      ∀ g : Grouping, g.reports.Perm (files.map Report.ofFile) →
        others.foldlM Report.addFile? Report.empty = g.value? ∧
        Report.sumFiles? others = g.value? ∧
        ∀ t, g.value? = some t ↔
          t.size.val = (files.map fun file => file.size.val).sum ∧
          (∀ k, (t.tally.get k).val = (files.map fun file => (file.tally.get k).val).sum) ∧
          t.files.val = files.length := by
  refine ⟨fun g hg => ⟨fun t => ?_, ?_⟩, fun others hothers g hg => ⟨?_, ?_, fun t => ?_⟩⟩
  · rw [value?_eq_some_iff, totals_of_perm hg, Report.exact_eq_sum_iff]
  · rw [value?_eq_none_iff, totals_of_perm hg, Report.not_fits_sum_iff]
  · ext t
    rw [foldlM_addFile?_eq_some_iff hothers, value?_eq_some_iff, totals_of_perm hg]
  · ext t
    rw [sumFiles?_eq_some_iff hothers, value?_eq_some_iff, totals_of_perm hg]
  · rw [value?_eq_some_iff, totals_of_perm hg, exact_eq_sum_ofFile_iff]

section

/-- A file of half the size at which totals stop to fit. -/
def heavyFile : FileReport := ⟨⟨2 ^ 63, by decide⟩, ⟨.zero, .zero, .one, .zero⟩⟩

/-- A file that is one byte smaller. -/
def lighterFile : FileReport := ⟨⟨2 ^ 63 - 1, by decide⟩, ⟨.zero, .zero, .one, .zero⟩⟩

/-- A heavy file and a lighter one just fit, in either order and with an empty
group in between. Two heavy ones do not, and the empty group does not help. -/
theorem value?_of_perm_heavy :
    (∃ t, (raised (group [report (.ofFile lighterFile), group []])
          (stored [report (.ofFile heavyFile)])).value? = some t ∧
        [heavyFile, lighterFile].foldlM Report.addFile? Report.empty = some t ∧
        t.size.val + 1 = Count.limit ∧ t.files.val = 2 ∧ (t.tally.get .tryWord).val = 2) ∧
      (plus (stored [report (.ofFile heavyFile), group []])
        (report (.ofFile heavyFile))).value? = none := by
  obtain ⟨-, hfiles⟩ := value?_of_perm [] [lighterFile, heavyFile]
  obtain ⟨hsum, -⟩ := value?_of_perm [.ofFile heavyFile, .ofFile heavyFile] []
  obtain ⟨hfold, -, hvalue⟩ := hfiles [heavyFile, lighterFile] (.swap _ _ _)
    (raised (group [report (.ofFile lighterFile), group []])
      (stored [report (.ofFile heavyFile)])) (.refl _)
  obtain ⟨-, hnone⟩ := hsum (plus (stored [report (.ofFile heavyFile), group []])
    (report (.ofFile heavyFile))) (.refl _)
  let t : Report := ⟨⟨2 ^ 64 - 1, by decide⟩,
    ⟨.zero, .zero, ⟨2, by decide⟩, .zero⟩, ⟨2, by decide⟩⟩
  have ht := (hvalue t).mpr ⟨rfl, fun k => by cases k <;> rfl, rfl⟩
  exact ⟨⟨t, ht, hfold.trans ht, rfl, rfl, rfl⟩, hnone.mpr (.inl (by decide))⟩

end

end Grouping

end KeywordSurvey
