import KeywordSurvey.Text.Numeral

/-!
# JSON values and their text

The values that are written, and two ways to write them: in one line without blanks, or over
several lines with two blanks for each level. In a text only quotes, backslashes and control
characters are escaped.
-/

namespace KeywordSurvey.Json

/-- A value to be written. -/
inductive Value where
  | number (n : Nat)
  | text (s : List Char)
  | list (items : List Value)
  /-- Names with their values, in this order. -/
  | record (members : List (List Char × Value))

/-- How a value is laid out. -/
inductive Layout where
  | compact
  /-- Every item on a line of its own. -/
  | indented
  deriving DecidableEq

/-- Two hexadecimal digits. -/
def twoHex (n : Nat) : List Char := [Nat.digitChar (n / 16 % 16), Nat.digitChar (n % 16)]

/-- A character as it stands in a quoted text. -/
def escapeChar (c : Char) : List Char :=
  if c = '"' then ['\\', '"']
  else if c = '\\' then ['\\', '\\']
  else if c = '\x08' then ['\\', 'b']
  else if c = '\x0c' then ['\\', 'f']
  else if c = '\n' then ['\\', 'n']
  else if c = '\r' then ['\\', 'r']
  else if c = '\t' then ['\\', 't']
  else if c.toNat < 0x20 then '\\' :: 'u' :: '0' :: '0' :: twoHex c.toNat
  else [c]

/-- A text in quotes. -/
def quoted (s : List Char) : List Char := '"' :: s.flatMap escapeChar ++ ['"']

namespace Layout

/-- What stands before an item at a level. -/
def lineStart : Layout → Nat → List Char
  | compact, _ => []
  | indented, level => '\n' :: List.replicate (2 * level) ' '

/-- What stands between a name and its value. -/
def colon : Layout → List Char
  | compact => [':']
  | indented => [':', ' ']

end Layout

namespace Value

mutual

/-- The text of a value whose first character stands at `level`. -/
def write (layout : Layout) (level : Nat) : Value → List Char
  | number n => Text.decimal n
  | text s => quoted s
  | list [] => ['[', ']']
  | list (item :: items) =>
    '[' :: layout.lineStart (level + 1) ++ write layout (level + 1) item
      ++ writeItems layout (level + 1) items ++ layout.lineStart level ++ [']']
  | record [] => ['\x7b', '\x7d']
  | record ((name, value) :: members) =>
    '\x7b' :: layout.lineStart (level + 1) ++ quoted name ++ layout.colon
      ++ write layout (level + 1) value ++ writeMembers layout (level + 1) members
      ++ layout.lineStart level ++ ['\x7d']

/-- All items but the first. -/
def writeItems (layout : Layout) (level : Nat) : List Value → List Char
  | [] => []
  | item :: items =>
    ',' :: layout.lineStart level ++ write layout level item ++ writeItems layout level items

/-- All members but the first. -/
def writeMembers (layout : Layout) (level : Nat) : List (List Char × Value) → List Char
  | [] => []
  | (name, value) :: members =>
    ',' :: layout.lineStart level ++ quoted name ++ layout.colon ++ write layout level value
      ++ writeMembers layout level members

end

end Value

end KeywordSurvey.Json
