import KeywordSurvey.Rendering
import Mathlib.Data.List.Basic

/-!
# The line of numbers

The numbers of a report stand in columns with tabs between them, each number
padded and followed by its word. The columns can be told apart however wide
they are, and padding takes nothing away, so the line says all the numbers
(`numbers_eq_iff`). Nothing in it looks like the end of the line.
-/

namespace KeywordSurvey

namespace Text

theorem decimal_injective {m n : Nat} (h : decimal m = decimal n) : m = n := by
  have hread := congrArg (fun digits => Nat.ofDigitChars 10 digits 0) h
  simpa only [decimal, Nat.ofDigitChars_ten_toDigits] using hread

theorem isDigit_of_mem_decimal {n : Nat} {c : Char} (h : c ∈ decimal n) : c.isDigit = true :=
  Nat.isDigit_of_mem_toDigits (by decide) (by decide) h

theorem align_right (width : Nat) (text : List Char) :
    align .right width text = text.leftpad width ' ' := rfl

theorem mem_numeral {width n : Nat} {c : Char} (h : c ∈ numeral (.blanks .right) width n) :
    c = ' ' ∨ c.isDigit = true := by
  rcases List.mem_append.mp h with h | h
  · exact .inl (List.eq_of_mem_replicate h)
  · exact .inr (isDigit_of_mem_decimal h)

/-- The digits of a number in its column. -/
theorem filter_numeral (width n : Nat) :
    (numeral (.blanks .right) width n).filter Char.isDigit = decimal n := by
  have hblanks : (List.replicate (width - (decimal n).length) ' ').filter Char.isDigit = [] :=
    List.filter_replicate_of_neg (by decide)
  have hdigits : (decimal n).filter Char.isDigit = decimal n :=
    List.filter_eq_self.mpr fun _ => isDigit_of_mem_decimal
  show (List.replicate _ ' ' ++ decimal n).filter Char.isDigit = _
  rw [List.filter_append, hblanks, hdigits, List.nil_append]

/-- A number can be read off its column, also where it is wider than that. -/
theorem numeral_injective {width m n : Nat}
    (h : numeral (.blanks .right) width m = numeral (.blanks .right) width n) : m = n := by
  have hdigits := congrArg (List.filter Char.isDigit) h
  rw [filter_numeral, filter_numeral] at hdigits
  exact decimal_injective hdigits

end Text

namespace Rendering

open Text

/-! ## Columns -/

/-- A number in a column, and what stands behind it. -/
def column (width : Nat) (behind : List Char) (n : Nat) : List Char :=
  numeral (.blanks .right) width n ++ behind

/-- The columns of a report. -/
def columns (r : Report) : List (List Char) :=
  column sizeWidth " bytes".toList r.size.val ::
    Keyword.all.map fun k => column countWidth (' ' :: k.word.toList) (r.tally.get k).val

theorem column_injective {width m n : Nat} {behind : List Char}
    (h : column width behind m = column width behind n) : m = n :=
  numeral_injective (List.append_cancel_right h)

theorem not_mem_column {c : Char} {behind : List Char} (hblank : c ≠ ' ')
    (hdigit : c.isDigit = false) (hbehind : c ∉ behind) (width n : Nat) :
    c ∉ column width behind n := by
  intro h
  rcases List.mem_append.mp h with h | h
  · rcases mem_numeral h with rfl | h
    · exact hblank rfl
    · rw [hdigit] at h
      cases h
  · exact hbehind h

/-- Neither tabs nor newlines stand in a column. -/
theorem not_mem_of_mem_columns {c : Char} (hc : c = '\t' ∨ c = '\n') {r : Report} :
    ∀ text ∈ columns r, c ∉ text := by
  have hblank : c ≠ ' ' := by rcases hc with rfl | rfl <;> decide
  have hdigit : c.isDigit = false := by rcases hc with rfl | rfl <;> rfl
  have hwords : c ∉ " bytes".toList ∧ ∀ k ∈ Keyword.all, c ∉ ' ' :: k.word.toList := by
    rcases hc with rfl | rfl <;> decide
  intro text htext
  rcases List.mem_cons.mp htext with rfl | htext
  · exact not_mem_column hblank hdigit hwords.1 _ _
  · obtain ⟨k, hk, rfl⟩ := List.mem_map.mp htext
    exact not_mem_column hblank hdigit (hwords.2 k hk) _ _

/-! ## The line -/

theorem numbers_eq_intercalate (r : Report) : numbers r = ['\t'].intercalate (columns r) := by
  simp [numbers, columns, column, countColumn, Keyword.all, List.intercalate]

/-- The columns can be told apart. -/
theorem splitOn_numbers (r : Report) : (numbers r).splitOn '\t' = columns r := by
  rw [numbers_eq_intercalate]
  exact List.splitOn_intercalate '\t' (not_mem_of_mem_columns (.inl rfl)) (List.cons_ne_nil _ _)

theorem newline_not_mem_numbers (r : Report) : '\n' ∉ numbers r := by
  intro h
  rcases List.mem_append.mp h with h | h
  · exact not_mem_of_mem_columns (.inr rfl) _ List.mem_cons_self h
  · obtain ⟨k, hk, h⟩ := List.mem_flatMap.mp h
    have hcolumn := List.mem_cons_of_mem (column sizeWidth " bytes".toList r.size.val)
      (List.mem_map_of_mem (f := fun k => column countWidth (' ' :: k.word.toList)
        (r.tally.get k).val) hk)
    rw [countColumn, List.cons_append] at h
    rcases List.mem_cons.mp h with h | h
    · cases h
    · exact not_mem_of_mem_columns (.inr rfl) _ hcolumn h

/-- **The line says all the numbers**, whatever their number of digits. -/
theorem numbers_eq_iff {r s : Report} :
    numbers r = numbers s ↔ r.size = s.size ∧ r.tally = s.tally := by
  constructor
  · intro h
    have hcolumns := congrArg (List.splitOn '\t') h
    rw [splitOn_numbers, splitOn_numbers, columns, columns, List.cons.injEq] at hcolumns
    obtain ⟨hsize, hcounts⟩ := hcolumns
    refine ⟨Count.ext (column_injective hsize), PerKeyword.ext_get fun k => ?_⟩
    have hk : k ∈ Keyword.all := by cases k <;> decide
    exact Count.ext (column_injective (List.map_inj_left.mp hcounts k hk))
  · rintro ⟨hsize, htally⟩
    rw [numbers, numbers, hsize, htally]

/-- The line in full: the size, and then how often each keyword occurs. -/
def stats (r : Report) : List Char :=
  (decimal r.size.val).leftpad 8 ' ' ++ " bytes\t".toList
    ++ (decimal r.tally.publicWord.val).leftpad 3 ' ' ++ " public\t".toList
    ++ (decimal r.tally.privateWord.val).leftpad 3 ' ' ++ " private\t".toList
    ++ (decimal r.tally.tryWord.val).leftpad 3 ' ' ++ " try\t".toList
    ++ (decimal r.tally.catchWord.val).leftpad 3 ' ' ++ " catch".toList

theorem numbers_eq_stats (r : Report) : numbers r = stats r := by
  simp [numbers, stats, countColumn, Keyword.all, numeral, align_right, PerKeyword.get,
    Keyword.word, sizeWidth, countWidth]

end Rendering

end KeywordSurvey
