import KeywordSurvey.Lexer.Scan
import KeywordSurvey.Tally

/-!
# Reports

What is known of one file, and the totals of any number of files. Totals are kept in 64-bit
counts, added up step by step; a step that does not fit leaves no total. `Totals` are the same
numbers without a limit, for stating what a report has to be.
-/

namespace KeywordSurvey

/-- A file as it was found: the size that is recorded for it, and its contents. The two need not
agree. -/
structure SourceFile where
  size : Count
  text : Bytes
  deriving DecidableEq

/-- Size and keywords of one file. -/
structure FileReport where
  size : Count
  tally : Tally
  deriving DecidableEq

/-- Sizes, keywords and number of files, taken together. -/
structure Report where
  size : Count
  tally : Tally
  files : Count
  deriving DecidableEq

/-- The numbers of a report, without a limit. -/
@[ext] structure Totals where
  size : Nat
  tally : PerKeyword Nat
  files : Nat
  deriving DecidableEq

namespace Totals

instance : Zero Totals := ⟨⟨0, 0, 0⟩⟩

instance : Add Totals := ⟨fun s t => ⟨s.size + t.size, s.tally + t.tally, s.files + t.files⟩⟩

/-- The totals of all items. -/
def sum (items : List Totals) : Totals := items.foldr (· + ·) 0

/-- What one file adds. -/
def ofFile (file : SourceFile) : Totals := ⟨file.size.val, Lexer.scan file.text, 1⟩

@[simp] theorem size_zero : (0 : Totals).size = 0 := rfl

@[simp] theorem tally_zero : (0 : Totals).tally = 0 := rfl

@[simp] theorem files_zero : (0 : Totals).files = 0 := rfl

@[simp] theorem size_add (s t : Totals) : (s + t).size = s.size + t.size := rfl

@[simp] theorem tally_add (s t : Totals) : (s + t).tally = s.tally + t.tally := rfl

@[simp] theorem files_add (s t : Totals) : (s + t).files = s.files + t.files := rfl

@[simp] theorem sum_nil : sum [] = 0 := rfl

@[simp] theorem sum_cons (t : Totals) (items : List Totals) : sum (t :: items) = t + sum items :=
  rfl

end Totals

namespace FileReport

/-- Counts the keywords of a file. -/
def ofSource? (file : SourceFile) : Option FileReport :=
  (Tally.ofExact? (Lexer.scan file.text)).map (⟨file.size, ·⟩)

end FileReport

namespace Report

/-- The report of no file. -/
def empty : Report := ⟨Count.zero, Tally.zero, Count.zero⟩

/-- The report of one file. -/
def ofFile (file : FileReport) : Report := ⟨file.size, file.tally, Count.one⟩

/-- The numbers of the report. -/
def exact (r : Report) : Totals := ⟨r.size.val, r.tally.exact, r.files.val⟩

/-- The sum, number by number. -/
def add? (r s : Report) : Option Report := do
  let size ← r.size.add? s.size
  let tally ← r.tally.add? s.tally
  let files ← r.files.add? s.files
  some ⟨size, tally, files⟩

/-- One more file. -/
def addFile? (r : Report) (file : FileReport) : Option Report := r.add? (ofFile file)

/-- Adds up from the left. -/
def sum? (reports : List Report) : Option Report := reports.foldlM add? empty

/-- Adds up files from the left. -/
def sumFiles? (files : List FileReport) : Option Report := sum? (files.map ofFile)

end Report

end KeywordSurvey
