import KeywordSurvey.Journal.Event
import KeywordSurvey.Journal.Threshold
import KeywordSurvey.Pattern.Reader
import KeywordSurvey.Text.Cut
import KeywordSurvey.Text.Utf8

/-!
# Directives

A directive gives a level to what some parts of the program tell: the parts whose names start in
a certain way, and of what they tell that which has a certain field. It is written as a level, or
as the start of a name, a field in brackets and braces, an equals sign and a level; each of these
may be missing.

What stands in brackets may also be the name of a span of time, or a field with a pattern for its
value. There are no spans here, so such a directive chooses nothing; but the pattern has to be
one.

The marks of a directive are looked for in its text without the blanks around it. The parts
between the marks are then cut out of the text with its blanks, at the same positions: with
blanks in front, all parts begin and end too early, and may do so within a character.
-/

namespace KeywordSurvey

/-- A level for what some parts of the program tell. -/
structure Directive where
  /-- How the names of the parts start. -/
  scope : List Char
  /-- The field that is asked for. -/
  field : Option (List Char)
  threshold : Threshold
  deriving DecidableEq

/-- Why a text is no directive. -/
inductive Misreading where
  | unreadable
  /-- A position lies within a character. -/
  | withinCharacter
  deriving DecidableEq

namespace Directive

/-- Does the directive concern this event? -/
def concerns (d : Directive) (event : Event) : Bool :=
  d.scope.isPrefixOf event.origin.toList
    && d.field.all fun name => event.fields.any fun known => known.toList == name

/-- Is the first one for fewer events? A longer start of a name comes first, then a field, and then
the field whose name is later in order. -/
def isNarrower (a b : Directive) : Bool :=
  if a.scope.length = b.scope.length then
    match a.field, b.field with
    | some x, some y => !decide (Utf8.encode x ≤ Utf8.encode y)
    | some _, none => true
    | none, _ => false
  else b.scope.length < a.scope.length

/-- Can a directive start with this character? -/
def starts (c : Char) : Bool := c = '-' || c = ':' || c = '_' || Text.isAlphanumeric c

/-- The part of the text between two positions. -/
def piece (text : List Char) (start stop : Nat) : Except Misreading (List Char) :=
  match Text.slice? start stop text with
  | some part => .ok part
  | none => .error .withinCharacter

/-- The threshold that is written from a position on. Nothing stands for everything. -/
def thresholdFrom (text : List Char) (start : Nat) : Except Misreading Threshold := do
  let level ← piece text start (Text.byteLength text)
  if level.isEmpty then .ok .everything
  else
    match Threshold.ofText? level with
    | some t => .ok t
    | none => .error .unreadable

/-- The threshold after the closing bracket, which is followed by `rest`. -/
def thresholdAfter (text : List Char) (start : Nat) (rest : List Char) :
    Except Misreading Threshold :=
  match rest with
  | [] => .ok .everything
  | c :: _ => if c = '=' then thresholdFrom text (start + 1) else .error .unreadable

/-- The name of a field without a value, or nothing for one with a value, which has to be a number
or a pattern. -/
def fieldName (field : List Char) : Except Misreading (Option (List Char)) :=
  if field.isEmpty then .error .unreadable
  else
    match field.splitOn '=' with
    | _ :: value :: _ =>
      if Text.isReal value || Pattern.isReadable value then .ok none else .error .unreadable
    | _ => .ok (some field)

/-- The directive whose opening brace is followed by `rest`, from a position on. -/
def ofBraces (text scope span : List Char) (start : Nat) (rest : List Char) :
    Except Misreading (Option Directive) :=
  let inside := rest.takeWhile (· != '\x7d')
  let stop := start + Text.byteLength inside
  match rest.dropWhile (· != '\x7d') with
  | _ :: rest => do
    let field ← fieldName (← piece text start stop)
    match rest with
    | ']' :: rest =>
      let threshold ← thresholdAfter text (stop + 2) rest
      if span.isEmpty then .ok (field.map fun name => ⟨scope, some name, threshold⟩) else .ok none
    | _ => .error .unreadable
  | [] => .error .unreadable

/-- The directive whose opening bracket is followed by `rest`, from a position on. -/
def ofBrackets (text scope : List Char) (start : Nat) (rest : List Char) :
    Except Misreading (Option Directive) :=
  let isPlain (c : Char) : Bool := c != ']' && c != '\x7b'
  let stop := start + Text.byteLength (rest.takeWhile isPlain)
  match rest.dropWhile isPlain with
  | c :: rest => do
    let span ← piece text start stop
    if c = ']' then
      let _ ← thresholdAfter text (stop + 1) rest
      .ok none
    else ofBraces text scope span (stop + 1) rest
  | [] => .error .unreadable

/-- The directive of a text, or none if it chooses nothing. -/
def ofText (text : List Char) : Except Misreading (Option Directive) :=
  let bare := Text.trim text
  let isPlain (c : Char) : Bool := c != '=' && c != '['
  let name := bare.takeWhile isPlain
  let stop := Text.byteLength name
  if !name.head?.all starts then .error .unreadable
  else
    match bare.dropWhile isPlain with
    | [] =>
      if name.isEmpty then .error .unreadable
      else
        match Threshold.ofText? text with
        | some t => .ok (some ⟨[], none, t⟩)
        | none => .ok (some ⟨text, none, .everything⟩)
    | c :: rest => do
      let scope ← piece text 0 stop
      if c = '[' then ofBrackets text scope (stop + 1) rest
      else if name.isEmpty then .error .unreadable
      else .ok (some ⟨scope, none, ← thresholdFrom text (stop + 1)⟩)

end Directive

end KeywordSurvey
