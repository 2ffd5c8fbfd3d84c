import KeywordSurvey.Failure

/-!
# Selection by ending

A survey looks at the files whose names end in a given text. The ending is compared byte by
byte, so case matters, and a name may consist of the ending alone.
-/

namespace KeywordSurvey

/-- Why an ending is no good, if it is none. -/
def Selector.refusal? (ending : String) : Option String :=
  if ending.isEmpty then some "must not be empty"
  else if ending.toList.any (fun c => c == '/' || c == '\\') then
    some "must not contain a path separator"
  else none

/-- The files whose names end in `ending`. -/
structure Selector where
  ending : String
  accepted : Selector.refusal? ending = none := by decide

namespace Selector

/-- The selector of an ending, unless the ending is refused. -/
def ofEnding (ending : String) : Except Failure Selector :=
  match h : refusal? ending with
  | none => .ok ⟨ending, h⟩
  | some reason => .error (.of (.invalidExtension ending reason))

/-- The ending that is used when none is given. -/
def standard : Selector := ⟨".java", by decide⟩

/-- Does the name of a file end as it should? -/
def selects (s : Selector) (name : Bytes) : Bool := (Utf8.ofString s.ending).isSuffixOf name

end Selector

end KeywordSurvey
