/-!
# Patterns

Regular expressions as trees: characters, sets of characters, and what is built from them. Flags
change how the rest of a group is read. A pattern that is nested too deep is not accepted.
-/

namespace KeywordSurvey

/-- Changes of flags: the letter of a flag, and whether it is set or cleared. -/
abbrev FlagChanges := List (Char × Bool)

namespace FlagChanges

/-- The letters of the flags. -/
def letters : List Char := ['i', 'm', 's', 'U', 'u', 'R', 'x']

/-- The flag after the changes. -/
def apply (changes : FlagChanges) (letter : Char) (before : Bool) : Bool :=
  (changes.lookup letter).getD before

end FlagChanges

/-- A set of characters. -/
inductive CharSet where
  | char (c : Char)
  | range (low high : Char)
  /-- One of the sets that go by a name, such as all letters, or what is not in it. -/
  | named (isNegated : Bool)
  /-- Digits, blanks or the characters of words, or what is not one of them. -/
  | known (isNegated : Bool)
  /-- A set in brackets, or what is not in it. -/
  | bracket (isNegated : Bool) (inner : CharSet)
  | union (parts : List CharSet)
  /-- What two sets have in common, or in what they differ. -/
  | operation (left right : CharSet)

namespace CharSet

/-- The set with these parts. -/
def ofParts : List CharSet → CharSet
  | [part] => part
  | parts => .union parts

mutual

/-- How deep brackets, unions and operations lie inside each other. -/
def depth : CharSet → Nat
  | bracket _ inner => inner.depth + 1
  | union [] => 0
  | union (part :: parts) => max part.depth (deepest parts) + 1
  | operation left right => max left.depth right.depth + 1
  | char _ | range _ _ | named _ | known _ => 0

/-- The largest depth of the parts. -/
def deepest : List CharSet → Nat
  | [] => 0
  | part :: parts => max part.depth (deepest parts)

end

end CharSet

/-- A regular expression. -/
inductive Pattern where
  | empty
  /-- A character, or the byte of its number, given by two digits. -/
  | char (c : Char) (isByte : Bool)
  /-- Any character but the end of a line. -/
  | any
  /-- The start or the end of a line or of the text. -/
  | edge
  /-- A place where a word starts or ends, or where none does. -/
  | wordEdge
  /-- Digits, blanks or the characters of words, or what is not one of them. -/
  | known (isNegated : Bool)
  | set (s : CharSet)
  | repeated (inner : Pattern)
  | group (name : Option (List Char)) (changes : FlagChanges) (inner : Pattern)
  /-- Flags for the rest of the group. -/
  | flags (changes : FlagChanges)
  | sequence (parts : List Pattern)
  | choice (branches : List Pattern)

namespace Pattern

/-- The pattern of these parts, one after the other. -/
def ofParts : List Pattern → Pattern
  | [] => .empty
  | [part] => part
  | parts => .sequence parts

/-- The pattern of these branches. -/
def ofBranches : List Pattern → Pattern
  | [branch] => branch
  | branches => .choice branches

/-- Changes of flags cannot be repeated. -/
def isFlags : Pattern → Bool
  | flags _ => true
  | _ => false

/-- How deep a pattern may be nested. -/
def deepest : Nat := 250

mutual

/-- How deep a pattern is nested. -/
def depth : Pattern → Nat
  | set s => s.depth
  | repeated inner => inner.depth + 1
  | group _ _ inner => inner.depth + 1
  | sequence parts => depths parts + 1
  | choice branches => depths branches + 1
  | empty | char _ _ | any | edge | wordEdge | known _ | flags _ => 0

/-- The largest depth of the parts. -/
def depths : List Pattern → Nat
  | [] => 0
  | part :: parts => max part.depth (depths parts)

end

mutual

/-- The names of the groups. -/
def names : Pattern → List (List Char)
  | repeated inner => inner.names
  | group name _ inner => name.toList ++ inner.names
  | sequence parts => namesOf parts
  | choice branches => namesOf branches
  | empty | char _ _ | any | edge | wordEdge | known _ | set _ | flags _ => []

/-- The names of the groups of several patterns. -/
def namesOf : List Pattern → List (List Char)
  | [] => []
  | part :: parts => part.names ++ namesOf parts

end

end Pattern

end KeywordSurvey
