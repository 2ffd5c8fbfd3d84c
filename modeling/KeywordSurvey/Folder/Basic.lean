import KeywordSurvey.Path
import KeywordSurvey.Report

/-!
# Folders

A directory with the totals of everything below it, and its subdirectories in order. A folder
put together by `assemble?` holds the sum of its own files and of its children; a sum that does
not fit leaves no folder.
-/

namespace KeywordSurvey

/-- A directory, its totals and its subdirectories. -/
inductive Folder where
  | mk (path : Path) (report : Report) (children : List Folder)

namespace Folder

def path : Folder → Path
  | mk path _ _ => path

def report : Folder → Report
  | mk _ report _ => report

def children : Folder → List Folder
  | mk _ _ children => children

/-- The folder of a directory with these files of its own and these subdirectories. -/
def assemble? (path : Path) (own : Report) (children : List Folder) : Option Folder := do
  let below ← Report.sum? (children.map report)
  let total ← own.add? below
  some (mk path total children)

/-- A directory about which nothing is known. -/
def leaf (path : Path) : Folder := mk path Report.empty []

mutual

/-- The folder and everything below it, each directory before those below it, with its distance
from the top; the top is at `level`. -/
def listing (level : Nat) : Folder → List (Nat × Folder)
  | mk path report children => (level, mk path report children) :: listings (level + 1) children

/-- The listings of several folders, one after the other. -/
def listings (level : Nat) : List Folder → List (Nat × Folder)
  | [] => []
  | folder :: folders => listing level folder ++ listings level folders

end

mutual

/-- The folder without what lies deeper than `depth`. All reports stay as they are. -/
def prune (depth : Option Nat) : Folder → Folder
  | mk path report children =>
    mk path report (match depth with
      | some 0 => []
      | some (d + 1) => pruneAll (some d) children
      | none => pruneAll none children)

/-- Prunes several folders. -/
def pruneAll (depth : Option Nat) : List Folder → List Folder
  | [] => []
  | folder :: folders => prune depth folder :: pruneAll depth folders

end

end Folder

end KeywordSurvey
