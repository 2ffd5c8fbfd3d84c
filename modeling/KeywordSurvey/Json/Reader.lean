import KeywordSurvey.Json.Skip

/-!
# Reading values

A reader takes one value from the front of a text. It is told how many lists and objects may
still be opened inside each other. Records are read from objects, with their names in any order
and unknown names passed over, or from lists that hold the fields in order. The first problem in
reading order is the one that is reported.
-/

namespace KeywordSurvey.Json

/-- How many lists and objects may lie inside each other. -/
def deepest : Nat := 127

/-- Reads one value, blanks in front of it included, with so many nestings left. -/
abbrev Reader (α : Type) := Nat → List Char → Except ReadError (Taken α)

/-- The problem with a value of another shape. A word, a number or a string is read first, and may
have a problem of its own. -/
def mismatch : List Char → ReadError
  | [] => ⟨.endInValue, [], 0⟩
  | c :: s =>
    let shape (r : Except ReadError (List Char)) : ReadError :=
      match r with
      | .error e => e
      | .ok s => ⟨.otherShape, s, 0⟩
    if c = 'n' then shape (word ['u', 'l', 'l'] s)
    else if c = 't' then shape (word ['r', 'u', 'e'] s)
    else if c = 'f' then shape (word ['a', 'l', 's', 'e'] s)
    else if c = '-' then shape ((negative s).map Prod.snd)
    else if c.isDigit then shape ((unsigned (c :: s)).map Prod.snd)
    else if c = '"' then shape ((string s).map Prod.snd)
    else if c = '[' || c = '\x7b' then ⟨.otherShape, c :: s, 0⟩
    else ⟨.noValue, c :: s, 1⟩

/-! ## Scalars -/

/-- Reads a string. -/
def Reader.text : Reader (List Char) := fun _ s =>
  match skipBlanks s with
  | '"' :: s => string s
  | s => .error (mismatch s)

/-- Reads a natural number that `accept` takes. -/
def Reader.natural {α : Type} (accept : Nat → Option α) : Reader α := fun _ s =>
  let checked (r : Except ReadError (Taken Number)) : Except ReadError (Taken α) := do
    let (n, s) ← r
    match n with
    | .other => refuseHere .otherShape s
    | .natural n =>
      match accept n with
      | none => refuseHere .otherShape s
      | some a => .ok (a, s)
  match skipBlanks s with
  | [] => endsIn .endInValue
  | c :: s =>
    if c = '-' then checked (negative s)
    else if c.isDigit then checked (unsigned (c :: s))
    else .error (mismatch (c :: s))

/-- Reads the word for nothing. -/
def Reader.nothing : Reader Unit := fun _ s =>
  match skipBlanks s with
  | 'n' :: s => do
    let s ← word ['u', 'l', 'l'] s
    .ok ((), s)
  | s => .error (mismatch s)

/-! ## Lists -/

/-- Goes on to the next item of an open list. Yields the text from the item on, or nothing at the
end of the list. -/
def nextItem? (first : Bool) (s : List Char) : Except ReadError (Option (List Char)) :=
  match skipBlanks s with
  | [] => endsIn .endInList
  | c :: s =>
    if c = ']' then .ok none
    else if first then .ok (some (c :: s))
    else if c = ',' then
      match skipBlanks s with
      | [] => endsIn .endInValue
      | d :: s => if d = ']' then refuse .trailingComma (d :: s) else .ok (some (d :: s))
    else refuse .noListComma (c :: s)

/-- Takes the end of a list. -/
def closeList (s : List Char) : Except ReadError (List Char) :=
  match skipBlanks s with
  | [] => endsIn .endInList
  | c :: s =>
    if c = ']' then .ok s
    else if c = ',' then
      match skipBlanks s with
      | ']' :: s => refuse .trailingComma (']' :: s)
      | s => refuse .trailingCharacters s
    else refuse .trailingCharacters (c :: s)

/-- Reads the items of an open list; `done` holds what has been read, backwards. Each item takes a
character, so `fuel` is enough if it is longer than the text. -/
def items {α : Type} (item : List Char → Except ReadError (Taken α)) :
    Nat → Bool → List α → List Char → Except ReadError (Taken (List α))
  | 0, _, _, s => refuse .noValue s
  | fuel + 1, first, done, s => do
    match ← nextItem? first s with
    | none => .ok (done.reverse, s)
    | some s =>
      let (a, s) ← item s
      items item fuel false (a :: done) s

/-- Reads a list after its opening bracket. -/
def listBody {α : Type} (item : List Char → Except ReadError (Taken α)) (s : List Char) :
    Except ReadError (Taken (List α)) := do
  let (all, s) ← items item (s.length + 1) true [] s
  let s ← closeList s
  .ok (all, s)

/-- Reads a list of values that `item` reads. -/
def Reader.list {α : Type} (item : Reader α) : Reader (List α) := fun depth s =>
  match skipBlanks s with
  | '[' :: s =>
    match depth with
    | 0 => refuse .tooDeep ('[' :: s)
    | depth + 1 => listBody (item depth) s
  | s => .error (mismatch s)

/-! ## Records -/

/-- Goes on to the next name of an open object. Yields the name and the text after it, or nothing
at the end of the object. -/
def nextName? (first : Bool) (s : List Char) :
    Except ReadError (Option (List Char × List Char)) :=
  match skipBlanks s with
  | [] => endsIn .endInObject
  | c :: s =>
    if c = '\x7d' then .ok none
    else if first then
      if c = '"' then (string s).map some else refuse .keyIsNoString (c :: s)
    else if c = ',' then
      match skipBlanks s with
      | [] => endsIn .endInValue
      | d :: s =>
        if d = '"' then (string s).map some
        else if d = '\x7d' then refuse .trailingComma (d :: s)
        else refuse .keyIsNoString (d :: s)
    else refuse .noObjectComma (c :: s)

/-- Takes the colon after a name. -/
def colon (s : List Char) : Except ReadError (List Char) :=
  match skipBlanks s with
  | [] => endsIn .endInObject
  | c :: s => if c = ':' then .ok s else refuse .noColon (c :: s)

/-- Takes the end of an object. -/
def closeObject (s : List Char) : Except ReadError (List Char) :=
  match skipBlanks s with
  | [] => endsIn .endInObject
  | c :: s =>
    if c = '\x7d' then .ok s
    else if c = ',' then refuse .trailingComma (c :: s)
    else refuse .trailingCharacters (c :: s)

/-- A field of a record, as a part of what has been read of the record so far. -/
structure Field (σ : Type) where
  name : List Char
  /-- Has the field been read? -/
  isFilled : σ → Bool
  fill : σ → Reader σ

/-- The field `name`, kept where `get` and `set` say. -/
def Field.of {σ α : Type} (name : String) (get : σ → Option α) (set : σ → α → σ)
    (value : Reader α) : Field σ where
  name := name.toList
  isFilled so := (get so).isSome
  fill so depth s := do
    let (a, s) ← value depth s
    .ok (set so a, s)

/-- A record by its fields. -/
structure Shape (σ α : Type) where
  fields : List (Field σ)
  /-- Nothing has been read. -/
  start : σ
  /-- The record, if all its fields have been read. -/
  finish : σ → Option α

/-- Reads the members of an open object. Each takes a character, so `fuel` is enough if it is
longer than the text. -/
def members {σ : Type} (fields : List (Field σ)) (depth : Nat) :
    Nat → Bool → σ → List Char → Except ReadError (Taken σ)
  | 0, _, _, s => refuse .noValue s
  | fuel + 1, first, so, s => do
    match ← nextName? first s with
    | none => .ok (so, s)
    | some (name, s) =>
      match fields.find? (fun f => f.name == name) with
      | none =>
        let s ← colon s
        let s ← skipValue s
        members fields depth fuel false so s
      | some field =>
        if field.isFilled so then refuseHere .otherShape s
        else
          let s ← colon s
          let (so, s) ← field.fill so depth s
          members fields depth fuel false so s

/-- Reads fields in their order from an open list. -/
def inOrder {σ : Type} (depth : Nat) :
    List (Field σ) → Bool → σ → List Char → Except ReadError (Taken σ)
  | [], _, so, s => .ok (so, s)
  | field :: fields, first, so, s => do
    match ← nextItem? first s with
    | none => refuseHere .otherShape s
    | some s =>
      let (so, s) ← field.fill so depth s
      inOrder depth fields false so s

/-- The record that has been read, if it is complete. -/
def complete {σ α : Type} (shape : Shape σ α) (so : σ) (s : List Char) :
    Except ReadError (Taken α) :=
  match shape.finish so with
  | none => refuseHere .otherShape s
  | some a => .ok (a, s)

/-- Reads a record after its opening brace. -/
def objectBody {σ α : Type} (shape : Shape σ α) (depth : Nat) (s : List Char) :
    Except ReadError (Taken α) := do
  let (so, s) ← members shape.fields depth (s.length + 1) true shape.start s
  let (a, s) ← complete shape so s
  let s ← closeObject s
  .ok (a, s)

/-- Reads a record after the opening bracket of a list of its fields. -/
def tupleBody {σ α : Type} (shape : Shape σ α) (depth : Nat) (s : List Char) :
    Except ReadError (Taken α) := do
  let (so, s) ← inOrder depth shape.fields true shape.start s
  let (a, s) ← complete shape so s
  let s ← closeList s
  .ok (a, s)

/-- Reads a record. -/
def Reader.record {σ α : Type} (shape : Shape σ α) : Reader α := fun depth s =>
  match skipBlanks s with
  | '[' :: s =>
    match depth with
    | 0 => refuse .tooDeep ('[' :: s)
    | depth + 1 => tupleBody shape depth s
  | '\x7b' :: s =>
    match depth with
    | 0 => refuse .tooDeep ('\x7b' :: s)
    | depth + 1 => objectBody shape depth s
  | s => .error (mismatch s)

/-! ## Choices -/

/-- The alternatives of a choice: each has a name, a value if the name may stand alone, and a
reader for what the name may lead to. -/
structure Alternative (α : Type) where
  name : List Char
  alone : Option α
  payload : Option (Reader α)

/-- An alternative that is no more than its name. -/
def Alternative.bare {α : Type} (name : String) (a : α) : Alternative α where
  name := name.toList
  alone := some a
  payload := some fun depth s => (Reader.nothing depth s).map fun r => (a, r.2)

/-- Takes the string that names an alternative. Nothing but a string can stand here. -/
def alternativeName (s : List Char) : Except ReadError (Taken (List Char)) :=
  match skipBlanks s with
  | [] => endsIn .endInValue
  | c :: s => if c = '"' then string s else refuse .keyIsNoString (c :: s)

/-- Reads the name of an alternative. -/
def alternative {α : Type} (all : List (Alternative α)) (s : List Char) :
    Except ReadError (Taken (Alternative α)) := do
  let (name, s) ← alternativeName s
  match all.find? (fun a => a.name == name) with
  | none => refuseHere .otherShape s
  | some a => .ok (a, s)

/-- Reads one of several alternatives: its name, or an object with the name as its only one. -/
def Reader.choice {α : Type} (all : List (Alternative α)) : Reader α := fun depth s =>
  match skipBlanks s with
  | [] => endsIn .endInValue
  | c :: s =>
    if c = '\x7b' then
      match depth with
      | 0 => refuse .tooDeep (c :: s)
      | depth + 1 => do
        let (chosen, s) ← alternative all s
        let s ← colon s
        match chosen.payload with
        | none => refuseHere .otherShape s
        | some payload =>
          let (a, s) ← payload depth s
          match skipBlanks s with
          | [] => endsIn .endInObject
          | d :: s => if d = '\x7d' then .ok (a, s) else refuseHere .noValue (d :: s)
    else if c = '"' then do
      let (chosen, s) ← alternative all (c :: s)
      match chosen.alone with
      | none => refuseHere .otherShape s
      | some a => .ok (a, s)
    else refuse .noValue (c :: s)

/-! ## Any value -/

/-- Reads the names and values of an open object, each value by `value`. -/
def anyMembers (value : List Char → Except ReadError (Taken Unit)) :
    Nat → Bool → List Char → Except ReadError (Taken Unit)
  | 0, _, s => refuse .noValue s
  | fuel + 1, first, s => do
    match ← nextName? first s with
    | none => .ok ((), s)
    | some (_, s) =>
      let s ← colon s
      let (_, s) ← value s
      anyMembers value fuel false s

/-- Reads any value that is well-formed. -/
def Reader.any : Reader Unit
  | depth, s =>
    match skipBlanks s with
    | [] => endsIn .endInValue
    | c :: s =>
      if c = 'n' then (word ['u', 'l', 'l'] s).map fun s => ((), s)
      else if c = 't' then (word ['r', 'u', 'e'] s).map fun s => ((), s)
      else if c = 'f' then (word ['a', 'l', 's', 'e'] s).map fun s => ((), s)
      else if c = '-' then (negative s).map fun r => ((), r.2)
      else if c.isDigit then (unsigned (c :: s)).map fun r => ((), r.2)
      else if c = '"' then (string s).map fun r => ((), r.2)
      else if c = '[' then
        match depth with
        | 0 => refuse .tooDeep (c :: s)
        | depth + 1 => (listBody (Reader.any depth) s).map fun r => ((), r.2)
      else if c = '\x7b' then
        match depth with
        | 0 => refuse .tooDeep (c :: s)
        | depth + 1 => do
          let (_, s) ← anyMembers (Reader.any depth) (s.length + 1) true s
          let s ← closeObject s
          .ok ((), s)
      else refuse .noValue (c :: s)

/-! ## Whole texts -/

/-- Reads a text that holds one value and nothing else but blanks. -/
def Reader.whole {α : Type} (reader : Reader α) (text : List Char) : Except ReadError α := do
  let (a, s) ← reader deepest text
  match skipBlanks s with
  | [] => .ok a
  | s => refuse .trailingCharacters s

end KeywordSurvey.Json
