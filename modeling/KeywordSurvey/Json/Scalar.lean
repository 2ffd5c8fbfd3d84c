import KeywordSurvey.Count
import KeywordSurvey.Json.Magnitude
import KeywordSurvey.Json.Problem

/-!
# Words, numbers and strings

Readers for what holds no other values. Each takes what it needs from the front of the text and
yields the rest; blanks in front are the caller's business.
-/

namespace KeywordSurvey.Json

def isBlank (c : Char) : Bool := c == ' ' || c == '\n' || c == '\t' || c == '\r'

/-- The text from its first character that is no blank. -/
def skipBlanks (s : List Char) : List Char := s.dropWhile isBlank

/-- Takes the letters of a word. -/
def word : List Char → List Char → Except ReadError (List Char)
  | [], s => .ok s
  | _ :: _, [] => endsIn .endInValue
  | w :: letters, c :: s => if c = w then word letters s else refuse .noWord (c :: s)

/-! ## Numbers -/

/-- A number as far as it matters. -/
inductive Number where
  /-- Digits only, and below 2^64. -/
  | natural (n : Nat)
  /-- Negative, too large, or with a fraction or an exponent. -/
  | other
  deriving DecidableEq

def digitValue (c : Char) : Nat := c.toNat - 48

/-- Takes leading digits into the number as long as it stays below 2^64; also says how many. -/
def absorb (n : Nat) : List Char → Nat × Nat
  | [] => (n, 0)
  | c :: digits =>
    let next := n * 10 + digitValue c
    if next < Count.limit then
      let (total, taken) := absorb next digits
      (total, taken + 1)
    else (n, 0)

/-- The largest exponent that is told from larger ones. -/
def exponentLimit : Nat := 2147483647

/-- Reads the digits of an exponent. If it grows past the limit, yields nothing, and the text after
the digit that did it. -/
def exponentDigits (n : Nat) : List Char → Option Nat × List Char
  | [] => (some n, [])
  | c :: s =>
    if c.isDigit then
      if n * 10 + digitValue c ≤ exponentLimit then exponentDigits (n * 10 + digitValue c) s
      else (none, s)
    else (some n, c :: s)

/-- The end of a number with a fraction or an exponent. -/
def settle (digits : Nat) (exponent : Int) (s : List Char) : Except ReadError (Taken Number) :=
  if isOutOfRange digits exponent then refuseHere .numberOutOfRange s else .ok (.other, s)

/-- Takes the sign of an exponent, if there is one. -/
def exponentSign : List Char → Bool × List Char
  | '+' :: s => (true, s)
  | '-' :: s => (false, s)
  | s => (true, s)

/-- Reads on after the letter of an exponent. -/
def exponent (digits : Nat) (start : Int) (s : List Char) : Except ReadError (Taken Number) :=
  let (positive, s) := exponentSign s
  match s with
  | [] => endsIn .endInValue
  | c :: s =>
    if c.isDigit then
      match exponentDigits (digitValue c) s with
      | (some e, s) => settle digits (if positive then start + e else start - e) s
      | (none, s) =>
        if digits != 0 && positive then refuseHere .numberOutOfRange s
        else .ok (.other, s.dropWhile Char.isDigit)
    else refuse .badNumber (c :: s)

/-- Reads on where an exponent may follow a fraction or too many digits. -/
def maybeExponent (digits : Nat) (start : Int) : List Char → Except ReadError (Taken Number)
  | 'e' :: s => exponent digits start s
  | 'E' :: s => exponent digits start s
  | s => settle digits start s

/-- Reads on after the point of a fraction. -/
def fraction (digits : Nat) (start : Int) (s : List Char) : Except ReadError (Taken Number) :=
  let places := s.takeWhile Char.isDigit
  let rest := s.dropWhile Char.isDigit
  if places.isEmpty then
    if rest.isEmpty then endsIn .endInValue else refuse .badNumber rest
  else
    let (digits, taken) := absorb digits places
    maybeExponent digits (start - taken) rest

/-- Reads on after the whole part of a number. `dropped` of its digits are not in `digits`. -/
def afterWhole (digits dropped : Nat) : List Char → Except ReadError (Taken Number)
  | '.' :: s => fraction digits dropped s
  | 'e' :: s => exponent digits dropped s
  | 'E' :: s => exponent digits dropped s
  | s => if dropped = 0 then .ok (.natural digits, s) else settle digits dropped s

/-- Reads a number without a sign. -/
def unsigned : List Char → Except ReadError (Taken Number)
  | [] => endsIn .endInValue
  | c :: s =>
    if c = '0' then
      match s with
      | [] => .ok (.natural 0, [])
      | d :: s => if d.isDigit then refuse .badNumber (d :: s) else afterWhole 0 0 (d :: s)
    else if c.isDigit then
      let more := s.takeWhile Char.isDigit
      let (digits, taken) := absorb (digitValue c) more
      afterWhole digits (more.length - taken) (s.dropWhile Char.isDigit)
    else refuse .badNumber (c :: s)

/-- Reads on after a minus sign. -/
def negative (s : List Char) : Except ReadError (Taken Number) := do
  let (_, s) ← unsigned s
  .ok (.other, s)

/-! ## Strings -/

def hexDigit? (c : Char) : Option Nat :=
  if c.isDigit then some (c.toNat - 48)
  else if 'a' ≤ c ∧ c ≤ 'f' then some (c.toNat - 87)
  else if 'A' ≤ c ∧ c ≤ 'F' then some (c.toNat - 55)
  else none

/-- Reads four hexadecimal digits. Four bytes are taken at once, so a text with fewer bytes ends
too early whatever they are. -/
def fourHex (s : List Char) : Except ReadError (Taken Nat) :=
  let bad : Except ReadError (Taken Nat) :=
    if (Utf8.encode (s.take 4)).length < 4 then endsIn .endInString
    else .error ⟨.badEscape, s, 4⟩
  match s with
  | a :: b :: c :: d :: rest =>
    match hexDigit? a, hexDigit? b, hexDigit? c, hexDigit? d with
    | some a, some b, some c, some d => .ok (((a * 16 + b) * 16 + c) * 16 + d, rest)
    | _, _, _, _ => bad
  | _ => bad

/-- Is this the first half of a surrogate pair? -/
def isHighSurrogate (n : Nat) : Bool := 0xD800 ≤ n && n ≤ 0xDBFF

/-- Is this the second half of a surrogate pair? -/
def isLowSurrogate (n : Nat) : Bool := 0xDC00 ≤ n && n ≤ 0xDFFF

/-- The character of a surrogate pair. -/
def ofSurrogates (high low : Nat) : Char :=
  Char.ofNat ((high - 0xD800) * 0x400 + (low - 0xDC00) + 0x10000)

/-- Reads the second half of a surrogate pair. -/
def secondHalf (high : Nat) : List Char → Except ReadError (Taken Char)
  | [] => endsIn .endInString
  | '\\' :: [] => endsIn .endInString
  | '\\' :: 'u' :: s => do
    let (low, s) ← fourHex s
    if isLowSurrogate low then .ok (ofSurrogates high low, s) else refuseHere .loneSurrogate s
  | '\\' :: s => refuse .brokenPair s
  | s => refuse .brokenPair s

/-- The character that a one-letter escape stands for. -/
def simpleEscape? : Char → Option Char
  | '"' => some '"'
  | '\\' => some '\\'
  | '/' => some '/'
  | 'b' => some '\x08'
  | 'f' => some '\x0c'
  | 'n' => some '\n'
  | 'r' => some '\r'
  | 't' => some '\t'
  | _ => none

/-- Reads an escape after its backslash. -/
def escape : List Char → Except ReadError (Taken Char)
  | [] => endsIn .endInString
  | 'u' :: s => do
    let (n, s) ← fourHex s
    if isLowSurrogate n then refuseHere .loneSurrogate s
    else if isHighSurrogate n then secondHalf n s
    else .ok (Char.ofNat n, s)
  | c :: s =>
    match simpleEscape? c with
    | some d => .ok (d, s)
    | none => refuse .badEscape (c :: s)

/-- Reads a string after its opening quote; `done` holds what has been read, backwards. No
character needs more steps than it has letters, so `fuel` is enough if it is the length of the
text. -/
def stringFrom : Nat → List Char → List Char → Except ReadError (Taken (List Char))
  | 0, _, _ => endsIn .endInString
  | _ + 1, _, [] => endsIn .endInString
  | fuel + 1, done, c :: s =>
    if c = '"' then .ok (done.reverse, s)
    else if c = '\\' then
      match escape s with
      | .ok (d, s) => stringFrom fuel (d :: done) s
      | .error e => .error e
    else if c.toNat < 0x20 then refuse .controlCharacter (c :: s)
    else stringFrom fuel (c :: done) s

/-- Reads a string after its opening quote. -/
def string (s : List Char) : Except ReadError (Taken (List Char)) := stringFrom s.length [] s

end KeywordSurvey.Json
