import InkPreview.Compile.Outcome
import InkPreview.Decimal.Number
import InkPreview.Settings.Constants
import InkPreview.Text.Blank
import InkPreview.Text.LineBreak
import InkPreview.Text.Utf8
/-!
The compiler as a child process. A `Child` says how one run goes, from writing its input to
reading its output; `Child.outcome` is what the run comes to once the process has ended.
-/
namespace InkPreview

open Decimal (Number)

/-- Why a run did not get under way: the system refused, or something else went wrong. -/
inductive SetupFault
  | refused (message : String)
  | crashed (name : String) (message : String)
  deriving DecidableEq, Repr

/-- What is found at the place of the output file. -/
inductive OutputFile
  | missing
  | directory
  | bytes (bs : List UInt8)
  deriving DecidableEq, Repr

structure Child where
  /-- Why the source was not written, if it was not. That there is no directory for the run, or that
  the text has no bytes, is no refusal of the system to write it. -/
  writeFault : Option SetupFault
  /-- Why the process did not start, if it did not. -/
  startFault : Option SetupFault
  /-- How long it runs, in millionths of a second. A child that takes no time ends at once. -/
  runTime : Nat
  exitCode : Int
  printed : List UInt8
  output : OutputFile
  /-- Whether killing it finds that it is already gone. -/
  gone : Bool
  /-- How long it takes to end once killed, if that takes any time. -/
  reapTime : Option Nat
  deriving DecidableEq, Repr

/-- What the program notes about a finished run. -/
inductive RunNote
  | exited (code : Int)
  | unreadable (reason : String)
  | blank
  deriving DecidableEq, Repr

def toolMissingMessage : String :=
  "inklecate compiler not found. Please install it or set INKIES_INKLECATE."

def outputUnreadableMessage : String := "Compiler finished but JSON output unreadable."

def unknownErrorMessage : String := "Unknown compiler error"

def writeFailedMessage (reason : String) : String := "Failed to write temp file: " ++ reason

/-- The message for a compiler that was stopped after its time was up. -/
def timedOutMessage (limit : Number) : String :=
  Settings.compilerName ++ " timed out after " ++ limit.general ++ "s"

/-- Why the output file cannot be opened. The directory of a run has no name of its own here. -/
def OutputFile.fault? : OutputFile → Option String
  | missing => some ("[Errno 2] No such file or directory: '<tmp>/" ++ Settings.scratchOutput ++ "'")
  | directory => some ("[Errno 21] Is a directory: '<tmp>/" ++ Settings.scratchOutput ++ "'")
  | bytes _ => none

/-- The text of the output file: bytes without their leading mark, every line end a line feed. -/
def OutputFile.read : OutputFile → Except String (List Char)
  | bytes bs =>
    match Text.Utf8.decodeMarked bs with
    | .ok cs => .ok (Text.unifyLines cs)
    | .error e => .error e.message
  | f => .error (f.fault?.getD "")

/-- What a run that ended by itself comes to. A failed run shows what the compiler printed, byte
for byte where it is text; a finished run needs an output that is not blank. -/
def Child.outcome (c : Child) : Outcome × Option RunNote :=
  if c.exitCode ≠ 0 then
    let printed := String.ofList (Text.Utf8.decodeLossy c.printed)
    (.failed .processError (if printed = "" then unknownErrorMessage else printed),
      some (.exited c.exitCode))
  else
    match c.output.read with
    | .error reason => (.failed .ioError outputUnreadableMessage, some (.unreadable reason))
    | .ok cs =>
      if (Text.trim cs).isEmpty then (.failed .ioError outputUnreadableMessage, some .blank)
      else (.success (String.ofList cs), none)

end InkPreview
