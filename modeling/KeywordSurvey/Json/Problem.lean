import KeywordSurvey.Text.Numeral
import KeywordSurvey.Text.Utf8

/-!
# What can be wrong with a JSON text

Each problem has its words, and belongs to one of three sorts: the text is no JSON, it is JSON
of another shape than asked for, or it ends too early. A problem is reported with the place in
the text where reading stopped, in lines and in bytes.
-/

namespace KeywordSurvey.Json

/-- What is wrong. -/
inductive Problem where
  | endInList
  | endInObject
  | endInString
  | endInValue
  | noColon
  | noListComma
  | noObjectComma
  | noWord
  | noValue
  | badEscape
  | badNumber
  | numberOutOfRange
  | controlCharacter
  | keyIsNoString
  /-- Half of a surrogate pair. -/
  | loneSurrogate
  | trailingComma
  | trailingCharacters
  /-- The first half of a surrogate pair, and no second escape after it. -/
  | brokenPair
  /-- Too many lists and objects inside each other. -/
  | tooDeep
  /-- JSON, but not the value that was asked for. -/
  | otherShape
  deriving DecidableEq

/-- The sorts of problems. -/
inductive Category where
  /-- The text is no JSON. -/
  | malformed
  /-- The text is JSON of another shape. -/
  | shape
  /-- The text ends too early. -/
  | ending
  deriving DecidableEq

namespace Problem

def category : Problem → Category
  | .endInList | .endInObject | .endInString | .endInValue => .ending
  | .otherShape => .shape
  | _ => .malformed

def words : Problem → String
  | .endInList => "EOF while parsing a list"
  | .endInObject => "EOF while parsing an object"
  | .endInString => "EOF while parsing a string"
  | .endInValue => "EOF while parsing a value"
  | .noColon => "expected \x60:\x60"
  | .noListComma => "expected \x60,\x60 or \x60]\x60"
  | .noObjectComma => "expected \x60,\x60 or \x60\x7d\x60"
  | .noWord => "expected ident"
  | .noValue => "expected value"
  | .badEscape => "invalid escape"
  | .badNumber => "invalid number"
  | .numberOutOfRange => "number out of range"
  | .controlCharacter => "control character (\\u0000-\\u001F) found while parsing a string"
  | .keyIsNoString => "key must be a string"
  | .loneSurrogate => "lone leading surrogate in hex escape"
  | .trailingComma => "trailing comma"
  | .trailingCharacters => "trailing characters"
  | .brokenPair => "unexpected end of hex escape"
  | .tooDeep => "recursion limit exceeded"
  | .otherShape => "unexpected value"

end Problem

/-- A problem and where it was met. -/
structure ReadError where
  problem : Problem
  /-- What was left of the text. -/
  rest : List Char
  /-- How many bytes of the rest had been looked at, unless it is shorter. -/
  seen : Nat
  deriving DecidableEq

namespace ReadError

/-- The number of bytes of the text that had been looked at. -/
def offset (e : ReadError) (text : List Char) : Nat :=
  let left := (Utf8.encode e.rest).length
  (Utf8.encode text).length - left + min e.seen left

/-- Line and column of the place: lines count from one, and the column is the number of bytes
since the start of the line. -/
def place (e : ReadError) (text : List Char) : Nat × Nat :=
  let before := (Utf8.encode text).take (e.offset text)
  let newline : UInt8 := 0x0A
  (before.count newline + 1, (before.reverse.takeWhile (· != newline)).length)

/-- The problem and its place. -/
def message (e : ReadError) (text : List Char) : List Char :=
  let (line, column) := e.place text
  e.problem.words.toList ++ " at line ".toList ++ Text.decimal line ++ " column ".toList
    ++ Text.decimal column

end ReadError

/-- A value that has been read, and the rest of the text. -/
abbrev Taken (α : Type) := α × List Char

/-- A problem with the character that comes next. -/
def refuse {α : Type} (problem : Problem) (rest : List Char) : Except ReadError α :=
  .error ⟨problem, rest, 1⟩

/-- A problem with what has been read. -/
def refuseHere {α : Type} (problem : Problem) (rest : List Char) : Except ReadError α :=
  .error ⟨problem, rest, 0⟩

/-- The text ends where it may not. -/
def endsIn {α : Type} (problem : Problem) : Except ReadError α := .error ⟨problem, [], 0⟩

end KeywordSurvey.Json
