import KeywordSurvey.SystemError

/-!
# Failures

Why a survey, or a part of it, did not work out. A failure is one cause with any number of
remarks in front of it. Remarks change the text of a failure and nothing else: what was wrong,
and whether it concerns a single path, is asked of the cause.
-/

namespace KeywordSurvey

/-- What went wrong. -/
inductive Cause where
  | invalidExtension (extension reason : String)
  /-- The path to be surveyed is no directory. -/
  | invalidPath (path : Path)
  | unreadableFile (path : Path) (error : SystemError)
  /-- A directory could not be resolved or listed. -/
  | fileSystem (operation : String) (path : Path) (error : SystemError)
  | threadPool (details : String)
  | serialization (format details : String)
  | output (message : String) (error : Option SystemError)
  | invalidValue (flag value reason : String)
  deriving DecidableEq

namespace Cause

/-- The cause itself, without the area it belongs to. -/
def detail : Cause → String
  | .invalidExtension extension reason => "Invalid extension '" ++ extension ++ "': " ++ reason
  | .invalidPath path => "Invalid path '" ++ path.display ++ "': not an existing directory"
  | .unreadableFile path error => "Unreadable file '" ++ path.display ++ "': " ++ error.message
  | .fileSystem operation path error =>
    "File system operation failed: " ++ operation ++ " on '" ++ path.display ++ "': "
      ++ error.message
  | .threadPool details => "Thread pool creation failed: " ++ details
  | .serialization format details => "Failed to serialize " ++ format ++ " output: " ++ details
  | .output message _ => "Output error: " ++ message
  | .invalidValue flag value reason =>
    "Invalid CLI value: " ++ flag ++ " = " ++ value ++ " - " ++ reason

/-- The area of the program that the cause belongs to. -/
def area : Cause → String
  | .invalidExtension .. => "Domain error"
  | .invalidPath .. => "Application error"
  | .invalidValue .. => "Presentation error"
  | _ => "Infrastructure error"

def message (c : Cause) : String := c.area ++ ": " ++ c.detail

/-- The error of the system behind the cause. -/
def systemError? : Cause → Option SystemError
  | .unreadableFile _ error => some error
  | .fileSystem _ _ error => some error
  | .output _ error => error
  | _ => none

/-- The texts behind the message, nearest first. -/
def causes (c : Cause) : List String :=
  c.detail ::
    match c.systemError? with
    | some error => error.message :: error.causes
    | none => []

/-- An error of the system, met while writing. -/
def ofSystemError (error : SystemError) : Cause := .output error.message (some error)

/-- Is this about reading one file? -/
def isUnreadableFile : Cause → Bool
  | .unreadableFile .. => true
  | _ => false

/-- Is this about one path, a file or a directory? -/
def isPathFailure : Cause → Bool
  | .unreadableFile .. => true
  | .fileSystem .. => true
  | _ => false

end Cause

/-- A cause with remarks, the outermost first. -/
structure Failure where
  remarks : List String
  cause : Cause
  deriving DecidableEq

namespace Failure

/-- A cause without remarks. -/
def of (cause : Cause) : Failure := ⟨[], cause⟩

/-- The failure with a remark in front. -/
def remark (f : Failure) (text : String) : Failure := { f with remarks := text :: f.remarks }

/-- A failure comes about from a cause, remark by remark. -/
theorem remark_induction {motive : Failure → Prop} (of : ∀ cause, motive (of cause))
    (remark : ∀ f text, motive f → motive (f.remark text)) (f : Failure) : motive f := by
  obtain ⟨remarks, cause⟩ := f
  induction remarks with
  | nil => exact of cause
  | cons text remarks ih => exact remark ⟨remarks, cause⟩ text ih

/-- The remarks in front of a text. -/
def prepend (remarks : List String) (text : String) : String :=
  remarks.foldr (fun r t => r ++ ": " ++ t) text

def message (f : Failure) : String := prepend f.remarks f.cause.message

@[simp] theorem message_of (cause : Cause) : (of cause).message = cause.message := rfl

@[simp] theorem message_remark (f : Failure) (text : String) :
    (f.remark text).message = text ++ ": " ++ f.message := rfl

/-- The messages that are left as the remarks are taken off one by one. -/
def peeled : List String → String → List String
  | [], _ => []
  | _ :: remarks, text => prepend remarks text :: peeled remarks text

/-- The texts behind the message, nearest first. -/
def causes (f : Failure) : List String := peeled f.remarks f.cause.message ++ f.cause.causes

/-- The message and the texts behind it in one line. -/
def chain (f : Failure) : String := ": ".intercalate (f.message :: f.causes)

/-- What is left of a cause with remarks when these are taken off one by one. -/
def stripped (cause : Cause) : List String → Failure
  | [] => of cause
  | _ :: remarks => stripped cause remarks

/-- The failure without its remarks. -/
def rootCause (f : Failure) : Failure := stripped f.cause f.remarks

@[simp] theorem rootCause_of (cause : Cause) : (of cause).rootCause = of cause := rfl

@[simp] theorem rootCause_remark (f : Failure) (text : String) :
    (f.remark text).rootCause = f.rootCause := rfl

theorem rootCause_eq (f : Failure) : f.rootCause = of f.cause := by
  induction f using remark_induction with
  | of cause => exact rootCause_of cause
  | remark f text ih => exact (rootCause_remark f text).trans ih

/-- Is this about reading one file? Asked of what is left without the remarks. -/
def isUnreadableFile (f : Failure) : Bool := f.rootCause.cause.isUnreadableFile

/-- Is this about one path? Asked of what is left without the remarks. -/
def isPathFailure (f : Failure) : Bool := f.rootCause.cause.isPathFailure

theorem isUnreadableFile_eq (f : Failure) : f.isUnreadableFile = f.cause.isUnreadableFile := by
  rw [isUnreadableFile, rootCause_eq, of]

theorem isPathFailure_eq (f : Failure) : f.isPathFailure = f.cause.isPathFailure := by
  rw [isPathFailure, rootCause_eq, of]

end Failure

end KeywordSurvey
