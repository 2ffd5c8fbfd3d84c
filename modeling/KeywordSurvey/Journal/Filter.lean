import KeywordSurvey.Journal.Directive

/-!
# Choosing what is told

A filter is a list of directives, written with commas between them. For each event the narrowest
directive that concerns it counts, and of two that are equally narrow the later one.
-/

namespace KeywordSurvey

/-- What is told. -/
abbrev Filter := List Directive

namespace Filter

/-- Everything up to a level. -/
def upTo (level : LogLevel) : Filter := [⟨[], none, .upTo level⟩]

/-- The later one of two directives, unless the earlier one is narrower. -/
def better (best : Option Directive) (d : Directive) : Option Directive :=
  match best with
  | none => some d
  | some b => if b.isNarrower d then some b else some d

/-- Is this event told? -/
def admits (filter : Filter) (event : Event) : Bool :=
  match (filter.filter (·.concerns event)).foldl better none with
  | none => false
  | some d => d.threshold.admits event.level

/-- The filter of a text. Without any directives only errors are told. -/
def ofText (text : String) : Except Misreading Filter := do
  let parts := (text.toList.splitOn ',').filter fun part => !part.isEmpty
  if parts.isEmpty then .ok (upTo .error)
  else
    let directives ← parts.mapM Directive.ofText
    .ok (directives.filterMap id)

/-- The filter of a run: the one that its surroundings ask for, if that can be read, and else that
of the command line. There is none if the surroundings ask for one that cannot be cut into its
parts. -/
def choose? (directives : Option String) (level : LogLevel) : Option Filter :=
  match directives.map ofText with
  | some (.ok filter) => some filter
  | some (.error .withinCharacter) => none
  | _ => some (upTo level)

/-- The command line has no part in whether there is a filter. -/
theorem isSome_choose?_iff {directives : Option String} {level : LogLevel} :
    (choose? directives level).isSome ↔
      ∀ text, directives = some text → ofText text ≠ .error .withinCharacter := by
  cases directives with
  | none => simp [choose?]
  | some text =>
    simp only [choose?, Option.map_some, Option.some.injEq, forall_eq']
    cases htext : ofText text with
    | ok filter => simp
    | error misreading => cases misreading <;> simp

end Filter

end KeywordSurvey
