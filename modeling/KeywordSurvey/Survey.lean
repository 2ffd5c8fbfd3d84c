import KeywordSurvey.Folder.Basic

/-!
# Surveys

What a run over a source tree yields: the folder of its root, and the paths that had to be left
out of all totals.
-/

namespace KeywordSurvey

/-- A path that was left out, and why. -/
structure Skip where
  path : Path
  reason : String
  deriving DecidableEq

/-- The result of a run. -/
structure Survey where
  root : Folder
  skipped : List Skip

namespace Survey

/-- Was nothing left out? -/
def isComplete (s : Survey) : Bool := s.skipped.isEmpty

end Survey

end KeywordSurvey
