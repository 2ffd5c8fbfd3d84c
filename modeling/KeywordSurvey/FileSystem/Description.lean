import KeywordSurvey.FileSystem.Setup

/-!
# Described file systems

A file system can be described line by line, each line with a word for what is made, the path,
and what else is needed, with tabs between them: `directory`, `file` with its contents, `link`
with its target, `pipe`. A line `filter` holds the filter of the journal that the surroundings
ask for. A backslash in a field escapes a tab, a line end, another backslash, or any byte by two
hexadecimal digits.
-/

namespace KeywordSurvey

namespace FileSystem

/-- A file system and the filter that its surroundings ask for. -/
structure Surroundings where
  fs : FileSystem
  directives : Option String

namespace Surroundings

/-- An empty directory, and no filter. -/
def fresh : Surroundings := ⟨FileSystem.fresh, none⟩

/-- The value of a hexadecimal digit. -/
def hexValue? (c : Char) : Option Nat :=
  if c.isDigit then some (c.toNat - 48)
  else if 'a' ≤ c ∧ c ≤ 'f' then some (c.toNat - 87)
  else none

/-- The bytes of a field. A backslash that escapes nothing stands for itself. -/
def unescape : List Char → Bytes
  | '\\' :: '\\' :: rest => 0x5C :: unescape rest
  | '\\' :: 't' :: rest => 0x09 :: unescape rest
  | '\\' :: 'n' :: rest => 0x0A :: unescape rest
  | '\\' :: 'x' :: a :: b :: rest =>
    match hexValue? a, hexValue? b with
    | some a, some b => (16 * a + b).toUInt8 :: unescape rest
    | _, _ => Utf8.encode ['\\', 'x', a, b] ++ unescape rest
  | c :: rest => Utf8.encodeChar c ++ unescape rest
  | [] => []

/-- Carries out one line. A line of another form changes nothing. -/
def takeLine (s : Surroundings) (line : List Char) : Surroundings :=
  match (line.splitOn '\t').map fun field => unescape field with
  | [word, path] =>
    if word = Utf8.ofString "directory" then { s with fs := s.fs.makeDirectory ⟨path⟩ }
    else if word = Utf8.ofString "pipe" then { s with fs := s.fs.create ⟨path⟩ .pipe }
    else if word = Utf8.ofString "filter" then { s with directives := Utf8.toStringLossy path }
    else s
  | [word, path, field] =>
    if word = Utf8.ofString "file" then { s with fs := s.fs.write ⟨path⟩ field }
    else if word = Utf8.ofString "link" then { s with fs := s.fs.create ⟨path⟩ (.link field) }
    else s
  | _ => s

/-- Carries out all lines. -/
def ofLines (lines : List (List Char)) : Surroundings := lines.foldl takeLine fresh

end Surroundings

end FileSystem

end KeywordSurvey
