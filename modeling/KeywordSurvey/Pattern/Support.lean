import KeywordSurvey.Pattern.Basic

/-!
# Patterns that can be used

Matching is by bytes of UTF-8 and without tables of letters. So a pattern over characters can
neither ignore case nor ask for words, and a pattern over bytes must not take half of a
character.
-/

namespace KeywordSurvey

/-- How a part of a pattern is read. -/
structure PatternMode where
  ignoresCase : Bool
  /-- Does it speak of characters, or else of bytes? -/
  isUnicode : Bool

namespace PatternMode

/-- How a pattern is read without flags. -/
def standard : PatternMode := ⟨false, true⟩

/-- The mode after changes of flags. -/
def change (mode : PatternMode) (changes : FlagChanges) : PatternMode :=
  ⟨changes.apply 'i' mode.ignoresCase, changes.apply 'u' mode.isUnicode⟩

/-- Are upper and lower case of all scripts to be told to be the same? That cannot be done. -/
def foldsUnicode (mode : PatternMode) : Bool := mode.ignoresCase && mode.isUnicode

end PatternMode

namespace CharSet

/-- A character of one byte. -/
def isAscii (c : Char) : Bool := c.toNat < 0x80

mutual

/-- Is there anything between the brackets? -/
def isInhabited : CharSet → Bool
  | char _ | range _ _ | named _ | known _ => true
  | bracket _ inner => inner.isInhabited
  | union parts => anyInhabited parts
  | operation left right => left.isInhabited || right.isInhabited

/-- Is there anything in one of the parts? -/
def anyInhabited : List CharSet → Bool
  | [] => false
  | part :: parts => part.isInhabited || anyInhabited parts

end

mutual

/-- Can the set be used? A set of bytes holds nothing but bytes that are characters, so what is not
in another set cannot be one. -/
def isSupported (isUnicode : Bool) : CharSet → Bool
  | char c => isUnicode || isAscii c
  | range low high => isUnicode || isAscii low && isAscii high
  | named isNegated => isUnicode || !isNegated
  | known isNegated => !isUnicode && !isNegated
  | bracket isNegated inner => inner.isSupported isUnicode && (isUnicode || !isNegated)
  | union parts => allSupported isUnicode parts
  | operation left right => left.isSupported isUnicode && right.isSupported isUnicode

/-- Can all the parts be used? -/
def allSupported (isUnicode : Bool) : List CharSet → Bool
  | [] => true
  | part :: parts => part.isSupported isUnicode && allSupported isUnicode parts

end

end CharSet

namespace Pattern

/-- The mode, if the condition holds. -/
def keep (mode : PatternMode) (condition : Bool) : Option PatternMode :=
  if condition then some mode else none

mutual

/-- The mode that holds after the pattern, if the pattern can be used in the mode before it. -/
def support (mode : PatternMode) : Pattern → Option PatternMode
  | empty | edge => some mode
  | char c isByte =>
    keep mode (!mode.foldsUnicode && (mode.isUnicode || !isByte || CharSet.isAscii c))
  | any => keep mode mode.isUnicode
  | wordEdge => keep mode (!mode.isUnicode)
  | known isNegated => keep mode (!mode.isUnicode && !isNegated)
  | set s => keep mode (s.isSupported mode.isUnicode && !(mode.foldsUnicode && s.isInhabited))
  | repeated inner => inner.support mode
  | group _ changes inner => (inner.support (mode.change changes)).map fun _ => mode
  | flags changes => some (mode.change changes)
  | sequence parts => supportAll mode parts
  | choice branches => supportAll mode branches

/-- The mode that holds after several patterns. Flags count beyond the branch that they stand in. -/
def supportAll (mode : PatternMode) : List Pattern → Option PatternMode
  | [] => some mode
  | part :: parts => (part.support mode).bind fun mode => supportAll mode parts

end

/-- Can the pattern be used? -/
def isUsable (p : Pattern) : Bool :=
  decide p.names.Nodup && p.depth ≤ deepest && (p.support .standard).isSome

end Pattern

end KeywordSurvey
