import KeywordSurvey.Proofs.Json.Forms

/-!
# Reading and writing agree

Whatever a form reads, in any spelling, it reads again from what it writes for
it (`forms_stable`): the text that is written is a normal form of the text that
was read.
-/

namespace KeywordSurvey.Json

variable {α : Type} {form : Form α} {legible : α → α} {layout : Layout} {a b : α}
  {t tail : List Char}

theorem Blank.ends (h : Blank tail) : Ends tail := by
  cases tail with
  | nil => exact ends_nil
  | cons c tail =>
    have hc := h c List.mem_cons_self
    simp only [isBlank, Bool.or_eq_true, beq_iff_eq] at hc
    rcases hc with ((rfl | rfl) | rfl) | rfl <;> exact ends_cons (by decide)

/-- A whole text is read if only blanks are left of it. -/
theorem Reader.whole_eq_ok_iff {reader : Reader α} :
    reader.whole t = .ok a ↔ ∃ rest, reader deepest t = .ok (a, rest) ∧ skipBlanks rest = [] := by
  rw [Reader.whole, bind_eq_ok_iff]
  constructor
  · rintro ⟨⟨b, rest⟩, hread, h⟩
    cases hrest : skipBlanks rest with
    | nil =>
      simp only [hrest] at h
      cases h
      exact ⟨rest, hread, hrest⟩
    | cons c s =>
      simp only [hrest] at h
      cases h
  · rintro ⟨rest, hread, hrest⟩
    exact ⟨(a, rest), hread, by simp only [hrest]⟩

namespace Form.Faithful

/-- **When the text of a value can be read**, blanks after it or not: if it does
not nest too deep, and then as what is legible of the value. -/
theorem parse_print_append_iff (h : form.Faithful legible) (htail : Blank tail)
    (hnesting : (form.write (legible a)).nesting = (form.write a).nesting) :
    form.parse (form.print layout a ++ tail) = .ok b ↔
      (form.write a).nesting ≤ deepest ∧ b = legible a := by
  have htakes : ∀ {depth}, (form.write a).nesting ≤ depth →
      form.read depth (form.print layout a ++ tail) = .ok (legible a, tail) :=
    fun hle => h.takes hle layout 0 [] tail (by simp [Blank]) htail.ends
  rw [Form.parse, Reader.whole_eq_ok_iff]
  constructor
  · rintro ⟨rest, hread, -⟩
    -- with more nestings left, the same text is read both ways
    have hmore := h.within (Nat.le_max_left deepest (form.write a).nesting) hread
    rw [htakes (Nat.le_max_right deepest _)] at hmore
    cases hmore
    exact ⟨hnesting ▸ (h.reads ⟨_, _, hread⟩).1, rfl⟩
  · rintro ⟨hle, rfl⟩
    exact ⟨tail, htakes hle, skipBlanks_of_blank htail⟩

end Form.Faithful

/-- Whatever the form reads, it reads again from what it writes for it, and a
text that it has rewritten it leaves as it is. -/
structure Form.Stable (form : Form α) : Prop where
  parse_print : ∀ {t : List Char} {a : α}, form.parse t = .ok a →
    ∀ layout, form.parse (form.print layout a) = .ok a
  rewritten : ∀ {t u : List Char}, form.rewritten t = .ok u → form.rewritten u = .ok u

theorem Form.Faithful.stable (h : form.Faithful legible) : form.Stable := by
  have hprint : ∀ {t a}, form.parse t = .ok a → ∀ layout,
      form.parse (form.print layout a) = .ok a := by
    intro t a ha layout
    obtain ⟨rest, hread, -⟩ := Reader.whole_eq_ok_iff.mp ha
    obtain ⟨hle, hlegible⟩ := h.reads ⟨_, _, hread⟩
    have hparse := (@parse_print_append_iff _ _ _ layout a a [] h (by simp [Blank])
      (by rw [hlegible])).mpr ⟨hle, hlegible.symm⟩
    rwa [List.append_nil] at hparse
  refine ⟨hprint, fun {t u} hu => ?_⟩
  obtain ⟨a, ha, rfl⟩ := map_eq_ok_iff.mp hu
  exact map_eq_ok_iff.mpr ⟨a, hprint ha .compact, rfl⟩

/-- **All forms are stable.** -/
theorem forms_stable :
    keyword.Stable ∧ tally.Stable ∧ count.Stable ∧ fileReport.Stable ∧ report.Stable ∧
      folder.Stable ∧ skip.Stable ∧ survey.Stable ∧ entryKind.Stable ∧ entry.Stable :=
  ⟨keyword_faithful.stable, tally_faithful.stable, count_faithful.stable,
    fileReport_faithful.stable, report_faithful.stable, folder_faithful.stable,
    skip_faithful.stable, survey_faithful.stable, entryKind_faithful.stable,
    entry_faithful.stable⟩

/-- The fields in a list, with blanks and an escape, become a record. -/
example : skip.rewritten "[ \"a\\u0062\", \"gone\" ]".toList
    = .ok "\x7b\"path\":\"ab\",\"reason\":\"gone\"\x7d".toList := by rfl

end KeywordSurvey.Json
