import KeywordSurvey.Text.Utf8

/-!
# Entries of a directory

What a directory lists: names, each with the kind of thing that it leads to. Links count as what
they point to.
-/

namespace KeywordSurvey

/-- What a name leads to. -/
inductive EntryKind where
  | directory
  | file
  /-- Neither: a pipe, a link that leads nowhere. -/
  | other
  deriving DecidableEq

/-- One entry of a directory. -/
structure Entry where
  name : Bytes
  kind : EntryKind
  deriving DecidableEq

end KeywordSurvey
