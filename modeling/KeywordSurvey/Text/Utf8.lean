/-!
# UTF-8

Characters and their bytes. `encode` writes characters as UTF-8; `decodeLossy` reads any bytes,
and puts one replacement character for each maximal run of bytes that starts out like a
character and then breaks off.

The decoder is a machine that takes one byte at a time. Between bytes it is either at rest or
owes some continuation bytes; the first of them may be confined to a part of the continuation
range, which keeps out overlong forms, surrogates and numbers past the last code point.
-/

namespace KeywordSurvey

/-- Raw bytes: contents of files, names, paths. -/
abbrev Bytes := List UInt8

namespace Utf8

/-- The bytes of one character. -/
def encodeChar (c : Char) : Bytes :=
  let n := c.toNat
  if n < 0x80 then [n.toUInt8]
  else if n < 0x800 then [(0xC0 + n / 64).toUInt8, (0x80 + n % 64).toUInt8]
  else if n < 0x10000 then
    [(0xE0 + n / 4096).toUInt8, (0x80 + n / 64 % 64).toUInt8, (0x80 + n % 64).toUInt8]
  else
    [(0xF0 + n / 262144).toUInt8, (0x80 + n / 4096 % 64).toUInt8,
      (0x80 + n / 64 % 64).toUInt8, (0x80 + n % 64).toUInt8]

/-- The bytes of a text. -/
def encode (text : List Char) : Bytes := text.flatMap encodeChar

/-- What stands for bytes that are no character. -/
def replacement : Char := '\uFFFD'

/-- What the decoder owes between two bytes. -/
inductive Pending where
  /-- Nothing: the next byte starts a character. -/
  | rest
  /-- `missing` further bytes, of which the next one lies between `low` and `high`; `value` is
  the number read so far. -/
  | owing (missing : Nat) (low high : Nat) (value : Nat)
  deriving DecidableEq

/-- Takes a byte that starts a character. -/
def start (b : UInt8) : List Char × Pending :=
  let n := b.toNat
  if n < 0x80 then ([Char.ofNat n], .rest)
  else if n < 0xC2 then ([replacement], .rest)
  else if n < 0xE0 then ([], .owing 1 0x80 0xBF (n - 0xC0))
  else if n < 0xF0 then
    ([], .owing 2 (if n = 0xE0 then 0xA0 else 0x80) (if n = 0xED then 0x9F else 0xBF) (n - 0xE0))
  else if n < 0xF5 then
    ([], .owing 3 (if n = 0xF0 then 0x90 else 0x80) (if n = 0xF4 then 0x8F else 0xBF) (n - 0xF0))
  else ([replacement], .rest)

/-- Takes any byte. One that does not continue the character begun ends it with a replacement
and starts anew. -/
def feed (p : Pending) (b : UInt8) : List Char × Pending :=
  match p with
  | .rest => start b
  | .owing missing low high value =>
    let n := b.toNat
    if low ≤ n ∧ n ≤ high then
      let value := value * 64 + (n - 0x80)
      if missing ≤ 1 then ([Char.ofNat value], .rest)
      else ([], .owing (missing - 1) 0x80 0xBF value)
    else
      let (chars, next) := start b
      (replacement :: chars, next)

/-- The characters of the bytes, given what is owed for the bytes before them; `done` holds the
characters so far, backwards. -/
def decodeFrom (p : Pending) (done : List Char) : Bytes → List Char
  | [] =>
    match p with
    | .rest => done.reverse
    | .owing .. => (replacement :: done).reverse
  | b :: bytes =>
    let (chars, next) := feed p b
    decodeFrom next (chars.reverse ++ done) bytes

/-- The characters of the bytes, with a replacement for each part that is no character. -/
def decodeLossy (bytes : Bytes) : List Char := decodeFrom .rest [] bytes

/-- The bytes of a string. -/
def ofString (s : String) : Bytes := encode s.toList

/-- The bytes as a string, with replacements. -/
def toStringLossy (bytes : Bytes) : String := String.ofList (decodeLossy bytes)

/-- The text of the bytes, if they are the bytes of a text. -/
def decode? (bytes : Bytes) : Option (List Char) :=
  let text := decodeLossy bytes
  if encode text = bytes then some text else none

end Utf8

end KeywordSurvey
