import KeywordSurvey.Pattern.SetReader
import KeywordSurvey.Pattern.Support

/-!
# Reading patterns

A pattern is a choice of branches, a branch a row of parts. A part is repeated by a sign after it.
Groups stand in parentheses; they may have a name, or flags of their own. Patterns are written
between braces, so that counted repetitions, which need a closing brace, are never complete.
-/

namespace KeywordSurvey.Pattern

/-- What an opening parenthesis begins. -/
inductive Opening where
  | group (name : Option (List Char)) (changes : FlagChanges)
  /-- Flags for the rest of the group around it, already closed. -/
  | flags (changes : FlagChanges)

namespace Opening

/-- Can the text be the name of a group? -/
def isName : List Char → Bool
  | [] => false
  | c :: s =>
    (c = '_' || Text.isAlphabetic c)
      && s.all fun d => ['_', '.', '[', ']'].contains d || Text.isAlphanumeric d

/-- Takes the name of a group, up to its closing angle. -/
def named? (s : List Char) : Option (Opening × List Char) :=
  match s.dropWhile (· != '>') with
  | _ :: rest =>
    let name := s.takeWhile (· != '>')
    if isName name then some (.group (some name) [], rest) else none
  | [] => none

/-- The changes that letters ask for: those after a minus sign clear their flags. -/
def changes? (s : List Char) : Option FlagChanges :=
  let checked (on off : List Char) : Option FlagChanges :=
    if (on ++ off).all FlagChanges.letters.contains && decide (on ++ off).Nodup then
      some (on.map (·, true) ++ off.map (·, false))
    else none
  match s.splitOn '-' with
  | [on] => checked on []
  | [on, off] => if off.isEmpty then none else checked on off
  | _ => none

/-- Takes flags, and the colon or parenthesis after them. -/
def flagged? (s : List Char) : Option (Opening × List Char) := do
  let isFlag (c : Char) : Bool := c != ':' && c != ')'
  let changes ← changes? (s.takeWhile isFlag)
  match s.dropWhile isFlag with
  | [] => none
  | c :: rest =>
    if c = ':' then some (.group none changes, rest)
    else if changes.isEmpty then none
    else some (.flags changes, rest)

/-- Takes what an opening parenthesis begins, up to the contents of a group. -/
def ofText? : List Char → Option (Opening × List Char)
  | '?' :: 'P' :: '<' :: s => named? s
  | '?' :: '<' :: s => named? s
  | '?' :: s => flagged? s
  | s => some (.group none [], s)

end Opening

/-- The pattern of the branches before the last one and the parts of that, both backwards. -/
def closed (branches parts : List Pattern) : Pattern :=
  .ofBranches (.ofParts parts.reverse :: branches).reverse

/-- Takes the sign that makes a repetition a short one. -/
def skipLazy : List Char → List Char
  | '?' :: s => s
  | s => s

/-- A character that stands for itself, or for a place. -/
def plain (c : Char) : Pattern :=
  if c = '.' then .any else if c = '^' || c = '$' then .edge else .char c false

/-- Reads a pattern to the end of its group or of the text. `branches` and `parts` hold what has
been read, backwards. Each step takes a character, so `fuel` is enough if it is longer than the
text. -/
def body : Nat → Bool → List Pattern → List Pattern → List Char → Option (Pattern × List Char)
  | 0, _, _, _, _ => none
  | fuel + 1, isSpaced, branches, parts, s =>
    match passOver isSpaced s with
    | [] => some (closed branches parts, [])
    | c :: s =>
      if c = ')' then some (closed branches parts, c :: s)
      else if c = '|' then body fuel isSpaced (.ofParts parts.reverse :: branches) [] s
      else if c = '(' then
        match Opening.ofText? (passOver isSpaced s) with
        | none => none
        | some (.flags changes, rest) =>
          body fuel (changes.apply 'x' isSpaced) branches (.flags changes :: parts) rest
        | some (.group name changes, rest) =>
          match body fuel (changes.apply 'x' isSpaced) [] [] rest with
          | some (inner, _ :: rest) =>
            body fuel isSpaced branches (.group name changes inner :: parts) rest
          | _ => none
      else if c = '[' then
        match CharSet.bracketed? isSpaced s with
        | none => none
        | some (members, rest) => body fuel isSpaced branches (.set members :: parts) rest
      else if c = '*' || c = '+' || c = '?' then
        match parts with
        | [] => none
        | part :: parts =>
          if part.isFlags then none
          else body fuel isSpaced branches (.repeated part :: parts) (skipLazy s)
      else if c = '\x7b' then none
      else if c = '\\' then
        match escape? isSpaced s with
        | none => none
        | some (escape, rest) => body fuel isSpaced branches (escape.pattern :: parts) rest
      else body fuel isSpaced branches (plain c :: parts) s

/-- The pattern of a text. -/
def ofText? (text : List Char) : Option Pattern :=
  match body (text.length + 1) false [] [] text with
  | some (p, []) => some p
  | _ => none

/-- Is the text a pattern that can be used? -/
def isReadable (text : List Char) : Bool := (ofText? text).any isUsable

end KeywordSurvey.Pattern
