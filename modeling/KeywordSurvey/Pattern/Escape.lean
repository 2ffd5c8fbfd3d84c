import KeywordSurvey.Pattern.Basic
import KeywordSurvey.Text.CharClass

/-!
# Blanks and escapes in patterns

A pattern may be spaced: then blanks in it, and comments up to the end of a line, mean nothing. A
backslash gives the character after it another meaning, or takes its meaning from it. Patterns
are written between braces, so no brace is closed in one.
-/

namespace KeywordSurvey.Pattern

/-- What is left after blanks and comments. -/
def skipSpace : Bool → List Char → List Char
  | _, [] => []
  | true, c :: s => skipSpace (c != '\n') s
  | false, c :: s =>
    if Text.isBlank c then skipSpace false s
    else if c = '#' then skipSpace true s
    else c :: s

/-- What is left after blanks and comments, if they mean nothing. -/
def passOver (isSpaced : Bool) (s : List Char) : List Char :=
  if isSpaced then skipSpace false s else s

/-- What a backslash and the characters after it stand for. -/
inductive Escape where
  | char (c : Char) (isByte : Bool)
  | known (isNegated : Bool)
  | edge
  | wordEdge
  deriving DecidableEq

/-- The number of a hexadecimal digit. -/
def hexDigit? (c : Char) : Option Nat :=
  if '0' ≤ c && c ≤ '9' then some (c.toNat - 48)
  else if 'a' ≤ c && c ≤ 'f' then some (c.toNat - 87)
  else if 'A' ≤ c && c ≤ 'F' then some (c.toNat - 55)
  else none

/-- Takes so many hexadecimal digits; `value` is the number of those before them. -/
def hexDigits (isSpaced : Bool) : Nat → Nat → List Char → Option (Nat × List Char)
  | 0, value, s => some (value, s)
  | count + 1, value, s =>
    match passOver isSpaced s with
    | [] => none
    | c :: s => (hexDigit? c).bind fun d => hexDigits isSpaced count (value * 16 + d) s

/-- The character of a code point, if it has one. -/
def charOf? (n : Nat) : Option Char := if n.isValidChar then some (Char.ofNat n) else none

/-- Takes a character that is given by so many digits. -/
def numbered (isSpaced : Bool) (digits : Nat) (isByte : Bool) (s : List Char) :
    Option (Escape × List Char) := do
  let (n, s) ← hexDigits isSpaced digits 0 s
  let c ← charOf? n
  some (.char c isByte, s)

/-- The control characters by their letters. -/
def controls : List (Char × Char) :=
  [('a', '\x07'), ('f', '\x0c'), ('t', '\t'), ('n', '\n'), ('r', '\r'), ('v', '\x0b')]

/-- What a single character after a backslash stands for. -/
def escaped? (c : Char) : Option Escape :=
  if ['d', 's', 'w'].contains c then some (.known false)
  else if ['D', 'S', 'W'].contains c then some (.known true)
  else if ['A', 'z'].contains c then some .edge
  else if ['b', 'B', '<', '>'].contains c then some .wordEdge
  else
    match controls.lookup c with
    | some control => some (.char control false)
    | none => if c.toNat < 0x80 && !c.isAlphanum then some (.char c false) else none

/-- Takes what follows a backslash. -/
def escape? (isSpaced : Bool) : List Char → Option (Escape × List Char)
  | [] => none
  | c :: s =>
    if c = 'x' then numbered isSpaced 2 true s
    else if c = 'u' then numbered isSpaced 4 false s
    else if c = 'U' then numbered isSpaced 8 false s
    else (escaped? c).map (·, s)

namespace Escape

/-- The escape as a pattern. -/
def pattern : Escape → Pattern
  | char c isByte => .char c isByte
  | known isNegated => .known isNegated
  | edge => .edge
  | wordEdge => .wordEdge

/-- The escape as a set. -/
def set? : Escape → Option CharSet
  | char c _ => some (.char c)
  | known isNegated => some (.known isNegated)
  | edge | wordEdge => none

/-- The character that the escape stands for. -/
def char? : Escape → Option Char
  | char c _ => some c
  | _ => none

end Escape

end KeywordSurvey.Pattern
