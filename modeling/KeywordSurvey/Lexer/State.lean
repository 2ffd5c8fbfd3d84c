import KeywordSurvey.Text.Utf8

/-!
# The lexical machine

Where a position of a source text lies: in code, in a comment or in a literal. The machine takes
one byte at a time. Comments run `//` to the end of the line and from `/` `*` to `*` `/`;
literals stand between double or between single quotes, and a backslash in a literal takes the
next byte with it.

Quotes inside comments are followed too, so that the machine can tell an open quote from a
closed one there, but the end of the comment always wins over an open quote.
-/

namespace KeywordSurvey.Lexer

/-- The two kinds of quote. -/
inductive Quote where
  | double
  | single
  deriving DecidableEq

/-- What a byte is to the machine. -/
inductive Mark where
  | slash
  | star
  | newline
  | backslash
  | quote (q : Quote)
  | other
  deriving DecidableEq

/-- What the byte is. -/
def Mark.ofByte (b : UInt8) : Mark :=
  if b = 0x2F then .slash
  else if b = 0x2A then .star
  else if b = 0x0A then .newline
  else if b = 0x5C then .backslash
  else if b = 0x22 then .quote .double
  else if b = 0x27 then .quote .single
  else .other

/-- Where a position lies. -/
inductive Region where
  | code
  | comment
  | literal
  deriving DecidableEq

/-- What the machine knows at a position. -/
inductive State where
  | code
  /-- After a slash in code; the next byte decides between a comment and code. -/
  | slash
  | lineComment
  | blockComment
  /-- After a star in a block comment; a slash ends the comment. -/
  | blockStar
  /-- In a literal; `escaped` after a backslash. -/
  | literal (q : Quote) (escaped : Bool)
  /-- After an open quote in a line comment. -/
  | lineQuote (q : Quote) (escaped : Bool)
  /-- After an open quote in a block comment. -/
  | blockQuote (q : Quote) (escaped : Bool)
  deriving DecidableEq

namespace State

/-- The state after a byte of this kind. -/
def step : State → Mark → State
  | .code, .slash => .slash
  | .code, .quote q => .literal q false
  | .code, _ => .code
  | .slash, .slash => .lineComment
  | .slash, .star => .blockComment
  | .slash, _ => .code
  | .lineComment, .newline => .code
  | .lineComment, .quote q => .lineQuote q false
  | .lineComment, _ => .lineComment
  | .blockComment, .star => .blockStar
  | .blockComment, .quote q => .blockQuote q false
  | .blockComment, _ => .blockComment
  | .blockStar, .star => .blockStar
  | .blockStar, .quote q => .blockQuote q false
  | .blockStar, .slash => .code
  | .blockStar, _ => .blockComment
  | .literal q false, .quote r => if q = r then .code else .literal q false
  | .literal q false, .backslash => .literal q true
  | .literal q _, _ => .literal q false
  | .lineQuote _ _, .newline => .code
  | .lineQuote q false, .quote r => if q = r then .lineComment else .lineQuote q false
  | .lineQuote q false, .backslash => .lineQuote q true
  | .lineQuote q _, _ => .lineQuote q false
  | .blockQuote _ _, .star => .blockStar
  | .blockQuote q false, .quote r => if q = r then .blockComment else .blockQuote q false
  | .blockQuote q false, .backslash => .blockQuote q true
  | .blockQuote q _, _ => .blockQuote q false

/-- A second byte that is no mark changes nothing. -/
theorem step_other_other (s : State) : (s.step .other).step .other = s.step .other := by
  cases s with
  | literal q escaped | lineQuote q escaped | blockQuote q escaped =>
    cases escaped <;> simp [step]
  | _ => simp [step]

/-- Such a byte before a newline changes nothing. -/
theorem step_other_newline (s : State) :
    (s.step .other).step .newline = s.step .newline := by
  cases s with
  | literal q escaped | lineQuote q escaped | blockQuote q escaped =>
    cases escaped <;> simp [step]
  | _ => simp [step]

/-- The state after a byte. -/
def next (s : State) (b : UInt8) : State := s.step (Mark.ofByte b)

/-- The state after a text. -/
def after (s : State) (text : Bytes) : State := text.foldl next s

/-- The state before the first byte, and then after each byte. -/
def trace (s : State) : Bytes → List State
  | [] => [s]
  | b :: rest => s :: trace (s.next b) rest

def region : State → Region
  | .code | .slash => .code
  | .literal _ _ => .literal
  | _ => .comment

/-- Is text that starts here looked at for keywords? -/
def isCode (s : State) : Bool := s.region == .code

end State

end KeywordSurvey.Lexer
