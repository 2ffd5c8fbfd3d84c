import KeywordSurvey.Pattern.Escape

/-!
# Reading sets of characters

A set stands in brackets and holds characters, ranges and other sets, and operations between them.
A hyphen at its start is a hyphen, and a closing bracket there is no end.
-/

namespace KeywordSurvey.CharSet

open Pattern

/-- The sets that go by a name. -/
def setNames : List String :=
  ["alnum", "alpha", "ascii", "blank", "cntrl", "digit", "graph", "lower", "print", "punct",
    "space", "upper", "word", "xdigit"]

/-- Takes a set by its name, which stands between colons, after the opening bracket. -/
def named? (s : List Char) : Option (CharSet × List Char) :=
  let ofName (isNegated : Bool) (s : List Char) : Option (CharSet × List Char) :=
    match s.dropWhile (· != ':') with
    | ':' :: ']' :: rest =>
      if setNames.contains (String.ofList (s.takeWhile (· != ':'))) then
        some (.named isNegated, rest)
      else none
    | _ => none
  match s with
  | ':' :: '^' :: s => ofName true s
  | ':' :: s => ofName false s
  | _ => none

/-- Takes a character, or what stands for one or more. -/
def member? (isSpaced : Bool) : List Char → Option (Escape × List Char)
  | [] => none
  | c :: s => if c = '\\' then escape? isSpaced s else some (.char c false, s)

/-- Takes a member and, if there is a hyphen after it that is not the last character nor one of
two, the other end of a range. -/
def part? (isSpaced : Bool) (s : List Char) : Option (CharSet × List Char) := do
  let (first, s) ← member? isSpaced s
  match passOver isSpaced s with
  | [] => none
  | '-' :: s =>
    match passOver isSpaced s with
    | [] => none
    | c :: rest =>
      if c = ']' || c = '-' then some (← first.set?, '-' :: s)
      else
        let (last, rest) ← member? isSpaced (c :: rest)
        let low ← first.char?
        let high ← last.char?
        if low ≤ high then some (.range low high, rest) else none
  | s => some (← first.set?, s)

/-- What stands on the left of an operation together with what stands on its right. -/
def joined (left : Option CharSet) (parts : List CharSet) : CharSet :=
  match left with
  | none => .ofParts parts.reverse
  | some left => .operation left (.ofParts parts.reverse)

/-- Takes the sign of a set that holds everything else. -/
def negation (isSpaced : Bool) (s : List Char) : Bool × List Char :=
  match passOver isSpaced s with
  | '^' :: s => (true, s)
  | s => (false, s)

/-- Reads a set to its closing bracket. `parts` holds what has been read, backwards, `left` what
stands before the last operation; `isOpening` says that nothing has been read but hyphens. Each
step takes a character, so `fuel` is enough if it is longer than the text. -/
def body (isSpaced : Bool) :
    Nat → Bool → Option CharSet → List CharSet → List Char → Option (CharSet × List Char)
  | 0, _, _, _, _ => none
  | fuel + 1, isOpening, left, parts, s =>
    match passOver isSpaced s with
    | [] => none
    | c :: s =>
      if isOpening && c = '-' then body isSpaced fuel true left (.char c :: parts) s
      else if isOpening && parts.isEmpty && c = ']' then
        body isSpaced fuel false left [.char c] s
      else if c = ']' then some (joined left parts, s)
      else if c = '[' then
        match named? s with
        | some (whole, s) => body isSpaced fuel false left (whole :: parts) s
        | none =>
          match body isSpaced fuel true none [] (negation isSpaced s).2 with
          | none => none
          | some (inner, rest) =>
            body isSpaced fuel false left (.bracket (negation isSpaced s).1 inner :: parts) rest
      else if (c = '&' || c = '-' || c = '~') && s.head? = some c then
        body isSpaced fuel false (some (joined left parts)) [] s.tail
      else
        match part? isSpaced (c :: s) with
        | none => none
        | some (part, rest) => body isSpaced fuel false left (part :: parts) rest

/-- Reads a set after its opening bracket. -/
def bracketed? (isSpaced : Bool) (s : List Char) : Option (CharSet × List Char) :=
  (body isSpaced (s.length + 1) true none [] (negation isSpaced s).2).map fun taken =>
    (.bracket (negation isSpaced s).1 taken.1, taken.2)

end KeywordSurvey.CharSet
