import KeywordSurvey.ErrorNumber
import KeywordSurvey.Path

/-!
# Errors of the operating system

What the system says when it refuses to list, to resolve or to read. An error prints as one
line; only an error met while walking into a directory has a further cause of its own.
-/

namespace KeywordSurvey

/-- A sort of refusal without a number. -/
inductive ErrorSort where
  | notFound
  | permissionDenied
  | alreadyExists
  | invalidInput
  | invalidData
  | timedOut
  | interrupted
  | unexpectedEof
  | brokenPipe
  deriving DecidableEq

def ErrorSort.description : ErrorSort → String
  | .notFound => "entity not found"
  | .permissionDenied => "permission denied"
  | .alreadyExists => "entity already exists"
  | .invalidInput => "invalid input parameter"
  | .invalidData => "invalid data"
  | .timedOut => "timed out"
  | .interrupted => "operation interrupted"
  | .unexpectedEof => "unexpected end of file"
  | .brokenPipe => "broken pipe"

/-- An error of the operating system. -/
inductive SystemError where
  /-- A refusal with the system's error number. -/
  | number (n : Nat)
  | sort (s : ErrorSort)
  /-- Words of another program. -/
  | other (text : String)
  /-- A path with a zero byte in it, which the system is never asked about. -/
  | zeroByte
  /-- Another error, met while walking into the directory. -/
  | walking (directory : Path) (error : SystemError)
  deriving DecidableEq

namespace SystemError

/-- The line that an error number prints as. -/
def numberMessage (n : Nat) : String :=
  errorNumberText n ++ " (os error " ++ toString n ++ ")"

def message : SystemError → String
  | .number n => numberMessage n
  | .sort s => s.description
  | .other text => text
  | .zeroByte => "file name contained an unexpected NUL byte"
  | .walking directory error =>
    "IO error for operation on " ++ directory.display ++ ": " ++ error.message

/-- The lines of the causes behind the error, nearest first. -/
def causes : SystemError → List String
  | .walking _ error => error.message :: error.causes
  | _ => []

end SystemError

end KeywordSurvey
