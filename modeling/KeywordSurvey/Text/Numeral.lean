/-!
# Numerals and columns

Decimal text of natural numbers, text that reads as a number, and text set into a column of a
given width.
-/

namespace KeywordSurvey

/-- How a text sits in a column that is wider than it. -/
inductive Alignment where
  | left
  | right
  /-- In the middle; an odd blank goes to the right. -/
  | center
  deriving DecidableEq

/-- How a number is set into its column. -/
inductive NumeralStyle where
  | blanks (how : Alignment)
  /-- On the right, with zeros in front. -/
  | zeros
  /-- On the right, with a plus sign before the first digit. -/
  | signed
  deriving DecidableEq

namespace Text

/-- Decimal digits, without leading zeros. -/
def decimal (n : Nat) : List Char := Nat.toDigits 10 n

/-- The number that decimal digits stand for. -/
def digitsValue (digits : List Char) : Nat :=
  digits.foldl (fun n d => n * 10 + (d.toNat - '0'.toNat)) 0

/-- The natural number of a text: decimal digits, with a plus sign or without. -/
def natural? (text : List Char) : Option Nat :=
  let digits := match text with
    | '+' :: rest => rest
    | _ => text
  if digits.isEmpty || !digits.all Char.isDigit then none else some (digitsValue digits)

/-- The text without a sign in front. -/
def unsigned (text : List Char) : List Char :=
  match text with
  | '+' :: rest => rest
  | '-' :: rest => rest
  | _ => text

/-- Is the text an exponent, or nothing? -/
def isExponent : List Char → Bool
  | [] => true
  | e :: text =>
    let digits := unsigned text
    e.toLower = 'e' && !digits.isEmpty && digits.all Char.isDigit

/-- Is the text a real number: digits with a point or without, an exponent or none, or one of the
words for what is no ordinary number? -/
def isReal (text : List Char) : Bool :=
  let magnitude := unsigned text
  let whole := magnitude.takeWhile Char.isDigit
  let (fraction, rest) := match magnitude.dropWhile Char.isDigit with
    | '.' :: rest => (rest.takeWhile Char.isDigit, rest.dropWhile Char.isDigit)
    | rest => ([], rest)
  ["inf", "infinity", "nan"].contains (String.ofList (magnitude.map Char.toLower))
    || !(whole ++ fraction).isEmpty && isExponent rest

/-- Pads with blanks up to `width` characters; a longer text stays as it is. -/
def align (how : Alignment) (width : Nat) (text : List Char) : List Char :=
  let room := width - text.length
  match how with
  | .left => text ++ List.replicate room ' '
  | .right => List.replicate room ' ' ++ text
  | .center => List.replicate (room / 2) ' ' ++ text ++ List.replicate (room - room / 2) ' '

/-- The number in a column of `width` characters; a longer number keeps all its digits. -/
def numeral (style : NumeralStyle) (width n : Nat) : List Char :=
  match style with
  | .blanks how => align how width (decimal n)
  | .zeros => List.replicate (width - (decimal n).length) '0' ++ decimal n
  | .signed => align .right width ('+' :: decimal n)

theorem length_align (how : Alignment) (width : Nat) (text : List Char) :
    (align how width text).length = max width text.length := by
  cases how <;> simp [align] <;> omega

end Text

end KeywordSurvey
