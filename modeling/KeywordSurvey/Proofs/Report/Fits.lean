import KeywordSurvey.Proofs.Report.Exact

/-!
# Totals that fit

Totals fit if each of their six numbers is below 2^64. Reports are exactly the
totals that fit (`Report.exists_exact`), and a part of totals that fit, fits
too. So a checked sum is there exactly if the exact total fits, in whatever
order and grouping it is added up (`Report.foldlM_eq_some_iff`): no sum on the
way overflows unless the whole does.
-/

namespace KeywordSurvey

namespace Totals

/-- All six numbers fit in 64 bits. -/
structure Fits (t : Totals) : Prop where
  size : t.size < Count.limit
  tally : ∀ k, t.tally.get k < Count.limit
  files : t.files < Count.limit

theorem not_fits_iff {t : Totals} :
    ¬ t.Fits ↔
      Count.limit ≤ t.size ∨ (∃ k, Count.limit ≤ t.tally.get k) ∨ Count.limit ≤ t.files := by
  constructor
  · intro h
    by_contra hnone
    push Not at hnone
    obtain ⟨hsize, htally, hfiles⟩ := hnone
    exact h ⟨by omega, fun k => by have := htally k; omega, by omega⟩
  · rintro (hsize | ⟨k, hk⟩ | hfiles) h
    · exact absurd h.size (by omega)
    · exact absurd (h.tally k) (by omega)
    · exact absurd h.files (by omega)

/-- What is added up to totals that fit, fits. -/
theorem Fits.of_add {s t : Totals} (h : (s + t).Fits) : s.Fits ∧ t.Fits := by
  have hsize : s.size + t.size < Count.limit := h.size
  have htally : ∀ k, s.tally.get k + t.tally.get k < Count.limit := fun k => by
    simpa using h.tally k
  have hfiles : s.files + t.files < Count.limit := h.files
  refine ⟨⟨by omega, fun k => ?_, by omega⟩, ⟨by omega, fun k => ?_, by omega⟩⟩
  · have := htally k
    omega
  · have := htally k
    omega

/-- One of many totals fits if their sum does. -/
theorem Fits.of_sum {t : Totals} {items : List Totals} (h : (sum items).Fits)
    (ht : t ∈ items) : t.Fits := by
  induction items with
  | nil => simp at ht
  | cons u items ih =>
    rcases List.mem_cons.mp ht with rfl | ht
    · exact h.of_add.1
    · exact ih h.of_add.2 ht

end Totals

namespace Tally

theorem exact_injective {s t : Tally} (h : s.exact = t.exact) : s = t := by
  refine PerKeyword.ext_get fun k => Count.ext ?_
  rw [← get_exact, ← get_exact, h]

/-- Numbers that fit are those of a tally. -/
theorem exists_exact {p : PerKeyword Nat} (h : ∀ k, p.get k < Count.limit) :
    ∃ t : Tally, t.exact = p := by
  obtain ⟨a, b, c, d⟩ := p
  exact ⟨⟨⟨a, h .publicWord⟩, ⟨b, h .privateWord⟩, ⟨c, h .tryWord⟩, ⟨d, h .catchWord⟩⟩, rfl⟩

end Tally

namespace Report

theorem fits_exact (r : Report) : r.exact.Fits where
  size := r.size.fits
  tally k := by
    show r.tally.exact.get k < Count.limit
    rw [Tally.get_exact]
    exact (r.tally.get k).fits
  files := r.files.fits

/-- Totals that fit are those of a report. -/
theorem exists_exact {t : Totals} (h : t.Fits) : ∃ r : Report, r.exact = t := by
  obtain ⟨tally, htally⟩ := Tally.exists_exact h.tally
  exact ⟨⟨⟨t.size, h.size⟩, tally, ⟨t.files, h.files⟩⟩, by simp [exact, htally]⟩

theorem exact_injective {r s : Report} (h : r.exact = s.exact) : r = s := by
  obtain ⟨size, tally, files⟩ := r
  obtain ⟨size', tally', files'⟩ := s
  simp only [exact, Totals.mk.injEq] at h
  obtain ⟨hsize, htally, hfiles⟩ := h
  rw [Count.ext hsize, Tally.exact_injective htally, Count.ext hfiles]

/-! ## Sums of many items -/

/-- **A sum that goes step by step is there exactly if the whole fits**, and
then it is the exact one. The steps may add anything that is worth some
totals, as long as each of them is checked and exact. -/
theorem foldlM_eq_some_iff {α : Type} {step : Report → α → Option Report} {worth : α → Totals}
    (hstep : ∀ r a t, step r a = some t ↔ t.exact = r.exact + worth a) {items : List α}
    {start t : Report} :
    items.foldlM step start = some t ↔ t.exact = start.exact + Totals.sum (items.map worth) := by
  induction items generalizing start with
  | nil =>
    rw [List.foldlM_nil, List.map_nil, Totals.sum_nil, add_zero]
    constructor
    · intro h
      cases h
      rfl
    · intro h
      rw [exact_injective h]
      rfl
  | cons a items ih =>
    rw [List.foldlM_cons, Option.bind_eq_bind, Option.bind_eq_some_iff, List.map_cons,
      Totals.sum_cons, ← add_assoc]
    constructor
    · rintro ⟨next, hnext, hrest⟩
      rw [ih.mp hrest, (hstep _ _ _).mp hnext]
    · intro h
      -- the sum of the first step is a part of the whole, so it is there
      have hfits : (start.exact + worth a).Fits := (h ▸ t.fits_exact).of_add.1
      obtain ⟨next, hnext⟩ := exists_exact hfits
      exact ⟨next, (hstep _ _ _).mpr hnext, ih.mpr (by rw [h, hnext])⟩

theorem sum?_eq_some_iff {reports : List Report} {t : Report} :
    sum? reports = some t ↔ t.exact = Totals.sum (reports.map exact) := by
  rw [sum?, foldlM_eq_some_iff @add?_eq_some_iff, exact_empty, zero_add]

/-- A file is classified if its keywords can be counted in 64 bits. -/
theorem exists_ofSource? {file : SourceFile} (h : (Totals.ofFile file).Fits) :
    ∃ report, FileReport.ofSource? file = some report := by
  obtain ⟨tally, htally⟩ := Tally.exists_exact h.tally
  have hscan : Tally.ofExact? (Lexer.scan file.text) = some tally :=
    Tally.ofExact?_eq_some_iff.mpr htally
  exact ⟨⟨file.size, tally⟩, by rw [FileReport.ofSource?, hscan, Option.map_some]⟩

end Report

end KeywordSurvey
