import KeywordSurvey.Folder.Traversal
import KeywordSurvey.Json.Form

/-!
# Printed surveys

A survey is printed as text, two lines for each directory, or as JSON. A limit on the depth
leaves deeper directories out; what is printed always covers the whole tree.
-/

namespace KeywordSurvey

/-- How a survey is printed. -/
inductive Format where
  | text
  | json
  deriving DecidableEq

namespace Rendering

/-- Columns for a path. -/
def pathWidth : Nat := 31

/-- Columns for a size. -/
def sizeWidth : Nat := 8

/-- Columns for the count of a keyword. -/
def countWidth : Nat := 3

/-- The count of a keyword, with its word. -/
def countColumn (t : Tally) (k : Keyword) : List Char :=
  '\t' :: Text.numeral (.blanks .right) countWidth (t.get k).val ++ ' ' :: k.word.toList

/-- The numbers of a report in one line. -/
def numbers (r : Report) : List Char :=
  Text.numeral (.blanks .right) sizeWidth r.size.val ++ " bytes".toList
    ++ Keyword.all.flatMap (countColumn r.tally)

/-- The two lines of a directory. -/
def block (folder : Folder) : List Char :=
  Text.align .right pathWidth folder.path.lossy ++ '\n' :: numbers folder.report ++ ['\n']

/-- Is a directory of this level printed? -/
def isPrinted (depth : Option Nat) (level : Nat) : Bool :=
  match depth with
  | none => true
  | some limit => level ≤ limit

/-- The directories of a folder as text. -/
def text (root : Folder) (depth : Option Nat) : List Char :=
  (root.visits.filter fun visit => isPrinted depth visit.1).flatMap fun visit => block visit.2

/-- The part of a survey that JSON shows. -/
def shown (s : Survey) (depth : Option Nat) : Survey := { s with root := s.root.prune depth }

/-- A survey as JSON. -/
def json (s : Survey) (depth : Option Nat) : List Char :=
  Json.survey.print .indented (shown s depth) ++ ['\n']

end Rendering

/-- The printed form of a survey. -/
def Survey.render (s : Survey) (format : Format) (depth : Option Nat) : List Char :=
  match format with
  | .text => Rendering.text s.root depth
  | .json => Rendering.json s depth

end KeywordSurvey
