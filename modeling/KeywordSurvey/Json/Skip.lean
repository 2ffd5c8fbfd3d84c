import KeywordSurvey.Json.Scalar

/-!
# Skipping values

What stands under an unknown name is passed over. That is less strict than reading it: lists and
objects may lie inside each other as deep as they like, numbers may have any size, and halves of
surrogate pairs may stand alone.
-/

namespace KeywordSurvey.Json

/-- Passes over an exponent after its letter. -/
def skipExponent (s : List Char) : Except ReadError (List Char) :=
  match (exponentSign s).2 with
  | [] => endsIn .badNumber
  | c :: s => if c.isDigit then .ok (s.dropWhile Char.isDigit) else refuse .badNumber (c :: s)

/-- Passes over an exponent, if there is one. -/
def skipMaybeExponent : List Char → Except ReadError (List Char)
  | 'e' :: s => skipExponent s
  | 'E' :: s => skipExponent s
  | s => .ok s

/-- Passes over what may follow the whole part of a number. -/
def skipAfterWhole : List Char → Except ReadError (List Char)
  | '.' :: s =>
    if (s.takeWhile Char.isDigit).isEmpty then refuse .badNumber s
    else skipMaybeExponent (s.dropWhile Char.isDigit)
  | s => skipMaybeExponent s

/-- Passes over a number without a sign. -/
def skipUnsigned : List Char → Except ReadError (List Char)
  | [] => endsIn .badNumber
  | c :: s =>
    if c = '0' then
      match s with
      | [] => .ok []
      | d :: s => if d.isDigit then refuse .badNumber (d :: s) else skipAfterWhole (d :: s)
    else if c.isDigit then skipAfterWhole (s.dropWhile Char.isDigit)
    else refuse .badNumber (c :: s)

/-- Passes over an escape after its backslash. -/
def skipEscape : List Char → Except ReadError (List Char)
  | [] => endsIn .endInString
  | 'u' :: s => do
    let (_, s) ← fourHex s
    .ok s
  | c :: s => if (simpleEscape? c).isSome then .ok s else refuse .badEscape (c :: s)

/-- Passes over a string after its opening quote, with enough `fuel` if it is the length of the
text. -/
def skipStringFrom : Nat → List Char → Except ReadError (List Char)
  | 0, _ => endsIn .endInString
  | _ + 1, [] => endsIn .endInString
  | fuel + 1, c :: s =>
    if c = '"' then .ok s
    else if c = '\\' then
      match skipEscape s with
      | .ok s => skipStringFrom fuel s
      | .error e => .error e
    else if c.toNat < 0x20 then refuseHere .controlCharacter (c :: s)
    else skipStringFrom fuel s

/-- Passes over a string after its opening quote. -/
def skipString (s : List Char) : Except ReadError (List Char) := skipStringFrom s.length s

/-- What is open while values are passed over. -/
inductive Bracket where
  | list
  | object
  deriving DecidableEq

/-- What is expected while values are passed over. -/
inductive Expectation where
  | value
  /-- A first item, or the end of what has just been opened. -/
  | firstItem
  /-- A comma, or the end of what is open. -/
  | comma
  deriving DecidableEq

/-- Passes over a name and its colon, if an object is open. -/
def skipKey : Bracket → List Char → Except ReadError (List Char)
  | .list, s => .ok s
  | .object, s =>
    match skipBlanks s with
    | [] => endsIn .endInObject
    | '"' :: s => do
      let s ← skipString s
      match skipBlanks s with
      | [] => endsIn .endInObject
      | ':' :: s => .ok s
      | s => refuse .noColon s
    | s => refuse .keyIsNoString s

/-- Passes over a value that is no list and no object. -/
def skipScalar : List Char → Except ReadError (List Char)
  | [] => endsIn .endInValue
  | 'n' :: s => word ['u', 'l', 'l'] s
  | 't' :: s => word ['r', 'u', 'e'] s
  | 'f' :: s => word ['a', 'l', 's', 'e'] s
  | '-' :: s => skipUnsigned s
  | '"' :: s => skipString s
  | c :: s => if c.isDigit then skipUnsigned (c :: s) else refuse .noValue (c :: s)

namespace Bracket

def closing : Bracket → Char
  | list => ']'
  | object => '\x7d'

/-- The text ends before what is open. -/
def unfinished : Bracket → Problem
  | list => .endInList
  | object => .endInObject

/-- Neither a comma nor the end comes after an item. -/
def noComma : Bracket → Problem
  | list => .noListComma
  | object => .noObjectComma

end Bracket

/-- Passes over everything up to the end of the outermost value, given what is open, innermost
first. Every step takes a character, so `fuel` is enough if it is longer than the text. -/
def skipFrom : Nat → Expectation → List Bracket → List Char → Except ReadError (List Char)
  | 0, _, _, s => refuse .noValue s
  | fuel + 1, .value, opened, s =>
    match skipBlanks s with
    | '[' :: s => skipFrom fuel .firstItem (.list :: opened) s
    | '\x7b' :: s => skipFrom fuel .firstItem (.object :: opened) s
    | s => do
      let s ← skipScalar s
      skipFrom fuel .comma opened s
  | _ + 1, _, [], s => .ok s
  | fuel + 1, .firstItem, bracket :: opened, s =>
    match skipBlanks s with
    | [] => endsIn bracket.unfinished
    | c :: s =>
      if c = bracket.closing then skipFrom fuel .comma opened s
      else do
        let s ← skipKey bracket (c :: s)
        skipFrom fuel .value (bracket :: opened) s
  | fuel + 1, .comma, bracket :: opened, s =>
    match skipBlanks s with
    | [] => endsIn bracket.unfinished
    | c :: s =>
      if c = bracket.closing then skipFrom fuel .comma opened s
      else if c = ',' then do
        let s ← skipKey bracket s
        skipFrom fuel .value (bracket :: opened) s
      else refuse bracket.noComma (c :: s)

/-- Passes over one value. -/
def skipValue (s : List Char) : Except ReadError (List Char) :=
  skipFrom (2 * s.length + 2) .value [] s

end KeywordSurvey.Json
