import KeywordSurvey.Json.Reader
import KeywordSurvey.Json.Value
import KeywordSurvey.SourceTree.Entry
import KeywordSurvey.Survey

/-!
# The JSON forms of counts, reports and surveys

For each type of value the way it is written and the way it is read. Paths are written as text,
with a replacement for what is not text; names of entries are written byte by byte.
-/

namespace KeywordSurvey.Json

/-- How values of a type are written and read. -/
structure Form (α : Type) where
  write : α → Value
  read : Reader α

namespace Form

/-- The text of a value. -/
def print {α : Type} (form : Form α) (layout : Layout) (a : α) : List Char :=
  (form.write a).write layout 0

/-- The value of a text. -/
def parse {α : Type} (form : Form α) (text : List Char) : Except ReadError α :=
  form.read.whole text

/-- The compact text of the value that a text holds. -/
def rewritten {α : Type} (form : Form α) (text : List Char) : Except ReadError (List Char) :=
  (form.parse text).map (form.print .compact)

/-- A list of values, written one after the other. -/
def list {α : Type} (form : Form α) : Form (List α) where
  write items := .list (items.map form.write)
  read := Reader.list form.read

end Form

/-- A text. -/
def text : Form String where
  write s := .text s.toList
  read depth s := (Reader.text depth s).map fun r => (String.ofList r.1, r.2)

/-- A path, written as text. -/
def path : Form Path where
  write p := .text p.lossy
  read depth s := (Reader.text depth s).map fun r => (⟨Utf8.encode r.1⟩, r.2)

/-- A count. -/
def count : Form Count where
  write c := .number c.val
  read := Reader.natural Count.ofNat?

/-- A keyword, by its word. -/
def keyword : Form Keyword where
  write k := .text k.word.toList
  read := Reader.choice (Keyword.all.map fun k => Alternative.bare k.word k)

/-- What has been read of a tally. -/
abbrev TallyFields := PerKeyword (Option Count)

/-- A record with a count for each keyword. -/
def tally : Form Tally where
  write t := .record (Keyword.all.map fun k => (k.word.toList, .number (t.get k).val))
  read := Reader.record {
    fields := Keyword.all.map fun k =>
      Field.of k.word (fun so : TallyFields => so.get k) (fun so c => so.set k (some c)) count.read
    start := PerKeyword.const none
    finish := PerKeyword.sequence }

/-- What has been read of a report. -/
structure ReportFields where
  size : Option Count
  tally : Option Tally
  files : Option Count

/-- The field for a size. -/
def sizeField : Field ReportFields :=
  .of "size" ReportFields.size (fun so c => { so with size := some c }) count.read

/-- The field for a tally. -/
def tallyField : Field ReportFields :=
  .of "tally" ReportFields.tally (fun so t => { so with tally := some t }) tally.read

/-- The field for a number of files. -/
def filesField : Field ReportFields :=
  .of "files" ReportFields.files (fun so c => { so with files := some c }) count.read

/-- The report of a file. -/
def fileReport : Form FileReport where
  write r := .record [("size".toList, count.write r.size), ("tally".toList, tally.write r.tally)]
  read := Reader.record {
    fields := [sizeField, tallyField]
    start := ⟨none, none, none⟩
    finish := fun so => do some ⟨← so.size, ← so.tally⟩ }

/-- The totals of a directory. -/
def report : Form Report where
  write r := .record [("size".toList, count.write r.size), ("tally".toList, tally.write r.tally),
    ("files".toList, count.write r.files)]
  read := Reader.record {
    fields := [sizeField, tallyField, filesField]
    start := ⟨none, none, none⟩
    finish := fun so => do some ⟨← so.size, ← so.tally, ← so.files⟩ }

mutual

/-- Writes a folder with everything below it. -/
def writeFolder : Folder → Value
  | .mk p r children => .record [("path".toList, path.write p), ("report".toList, report.write r),
      ("children".toList, .list (writeFolders children))]

/-- Writes several folders. -/
def writeFolders : List Folder → List Value
  | [] => []
  | folder :: folders => writeFolder folder :: writeFolders folders

end

/-- What has been read of a folder. -/
structure FolderFields where
  path : Option Path
  report : Option Report
  children : Option (List Folder)

/-- How a folder is read if its children are read by `child`. -/
def folderShape (child : Reader Folder) : Shape FolderFields Folder where
  fields := [
    .of "path" FolderFields.path (fun so p => { so with path := some p }) path.read,
    .of "report" FolderFields.report (fun so r => { so with report := some r }) report.read,
    .of "children" FolderFields.children (fun so l => { so with children := some l })
      (Reader.list child)]
  start := ⟨none, none, none⟩
  finish so := do some (.mk (← so.path) (← so.report) (← so.children))

/-- Reads a folder with at most so many levels below it. -/
def folderReader : Nat → Reader Folder
  | 0 => fun _ s => refuse .tooDeep s
  | levels + 1 => Reader.record (folderShape (folderReader levels))

/-- A directory with everything below it. A level takes two nestings, so the nestings run out before
the levels do. -/
def folder : Form Folder where
  write := writeFolder
  read depth := folderReader (depth + 1) depth

/-- What has been read of a path that was left out. -/
structure SkipFields where
  path : Option Path
  reason : Option String

/-- A path that was left out. -/
def skip : Form Skip where
  write s := .record [("path".toList, path.write s.path), ("reason".toList, text.write s.reason)]
  read := Reader.record {
    fields := [
      .of "path" SkipFields.path (fun so p => { so with path := some p }) path.read,
      .of "reason" SkipFields.reason (fun so r => { so with reason := some r }) text.read]
    start := ⟨none, none⟩
    finish := fun so => do some ⟨← so.path, ← so.reason⟩ }

/-- What has been read of a survey. -/
structure SurveyFields where
  root : Option Folder
  skipped : Option (List Skip)

/-- The result of a run. -/
def survey : Form Survey where
  write s := .record [("root".toList, folder.write s.root),
    ("skipped".toList, skip.list.write s.skipped)]
  read := Reader.record {
    fields := [
      .of "root" SurveyFields.root (fun so f => { so with root := some f }) folder.read,
      .of "skipped" SurveyFields.skipped (fun so l => { so with skipped := some l })
        skip.list.read]
    start := ⟨none, none⟩
    finish := fun so => do some ⟨← so.root, ← so.skipped⟩ }

/-- The name of a kind of entry. -/
def kindName : EntryKind → String
  | .directory => "Directory"
  | .file => "File"
  | .other => "Other"

/-- What an entry of a directory leads to. -/
def entryKind : Form EntryKind where
  write k := .text (kindName k).toList
  read := Reader.choice ([.directory, .file, .other].map fun k => Alternative.bare (kindName k) k)

/-- A number below 256 as a byte. -/
def byte? (n : Nat) : Option UInt8 := if n < 256 then some n.toUInt8 else none

/-- A name, byte by byte, under the sort of system that such names belong to. Names of the other
sort are known, but are of no use here. -/
def name : Form Bytes where
  write bytes := .record [("Unix".toList, .list (bytes.map fun b => .number b.toNat))]
  read := Reader.choice [
    ⟨"Unix".toList, none, some (Reader.list (Reader.natural byte?))⟩,
    ⟨"Windows".toList, none, none⟩]

/-- What has been read of an entry. -/
structure EntryFields where
  name : Option Bytes
  kind : Option EntryKind

/-- An entry of a directory. -/
def entry : Form Entry where
  write e := .record [("name".toList, name.write e.name), ("kind".toList, entryKind.write e.kind)]
  read := Reader.record {
    fields := [
      .of "name" EntryFields.name (fun so n => { so with name := some n }) name.read,
      .of "kind" EntryFields.kind (fun so k => { so with kind := some k }) entryKind.read]
    start := ⟨none, none⟩
    finish := fun so => do some ⟨← so.name, ← so.kind⟩ }

end KeywordSurvey.Json
