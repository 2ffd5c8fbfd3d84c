import KeywordSurvey.Text.Alphabetic
import KeywordSurvey.Text.Numeric

/-!
# Classes of characters

Letters, numbers and blanks of all scripts, and texts without the blanks around them.
-/

namespace KeywordSurvey.Text

/-- Does the code point of the character lie in one of the ranges? -/
def liesIn (ranges : List (Nat × Nat)) (c : Char) : Bool :=
  ranges.any fun range => range.1 ≤ c.toNat && c.toNat ≤ range.2

def isAlphabetic (c : Char) : Bool := liesIn alphabeticRanges c

def isNumeric (c : Char) : Bool := liesIn numericRanges c

def isAlphanumeric (c : Char) : Bool := isAlphabetic c || isNumeric c

/-- The characters that have the Unicode property White_Space. -/
def blankRanges : List (Nat × Nat) :=
  [(0x9, 0xD), (0x20, 0x20), (0x85, 0x85), (0xA0, 0xA0), (0x1680, 0x1680), (0x2000, 0x200A),
    (0x2028, 0x2029), (0x202F, 0x202F), (0x205F, 0x205F), (0x3000, 0x3000)]

def isBlank (c : Char) : Bool := liesIn blankRanges c

/-- The text without the blanks around it. -/
def trim (text : List Char) : List Char :=
  ((text.dropWhile isBlank).reverse.dropWhile isBlank).reverse

end KeywordSurvey.Text
