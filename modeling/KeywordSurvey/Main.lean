import KeywordSurvey.FileSystem.Description
import KeywordSurvey.Program

/-!
# The command line

Reads the description of a file system from the standard input, runs the program on it with the
given arguments, and exits with its status. The survey goes to the standard output, the journal
and all messages to the standard error.
-/

namespace KeywordSurvey

/-- The lines of a stream, without their ends. -/
partial def readLines (stream : IO.FS.Stream) (done : List (List Char)) : IO (List (List Char)) := do
  let line ← stream.getLine
  if line.isEmpty then
    return done.reverse
  readLines stream ((line.toList.filter (· != '\n')) :: done)

/-- The line of the journal for an event. -/
def journalLine (event : Event) : String := event.level.name ++ ": " ++ event.message

end KeywordSurvey

open KeywordSurvey in
/-- Runs the program once. -/
def main (arguments : List String) : IO UInt32 := do
  let surroundings := FileSystem.Surroundings.ofLines (← readLines (← IO.getStdin) [])
  let outcome :=
    Program.run surroundings.fs surroundings.directives (arguments.map Utf8.ofString)
  for event in outcome.journal do
    IO.eprintln (journalLine event)
  IO.print (String.ofList outcome.output)
  for message in outcome.messages do
    IO.eprintln message
  return outcome.exitCode.toUInt32
