import InkPreview.Compile.Outcome
import InkPreview.Document
import InkPreview.Json.Reader
import InkPreview.Settings.Constants
import InkPreview.Text.Quoted
import InkPreview.Text.Utf8
/-!
What can go wrong beyond a failed compile, and the text that is shown for it.
-/
namespace InkPreview

/-- The refusals of the file system. -/
inductive OsError
  | notPermitted
  | notFound
  | alreadyThere
  | notDirectory
  | isDirectory
  | nameTooLong
  | notEmpty
  | tooManyLinks
  | busy
  deriving DecidableEq, Repr

def OsError.code : OsError → Nat
  | notPermitted => 13
  | notFound => 2
  | alreadyThere => 17
  | notDirectory => 20
  | isDirectory => 21
  | nameTooLong => 36
  | notEmpty => 39
  | tooManyLinks => 40
  | busy => 16

def OsError.text : OsError → String
  | notPermitted => "Permission denied"
  | notFound => "No such file or directory"
  | alreadyThere => "File exists"
  | notDirectory => "Not a directory"
  | isDirectory => "Is a directory"
  | nameTooLong => "File name too long"
  | notEmpty => "Directory not empty"
  | tooManyLinks => "Too many levels of symbolic links"
  | busy => "Device or resource busy"

/-- An operation on files that failed: the refusal with the path or paths it is about, or a reason
in words. -/
inductive FileFault
  | os (e : OsError) (path : String)
  | between (e : OsError) (path target : String)
  | told (message : String)
  | nullByte
  deriving DecidableEq, Repr

def FileFault.message : FileFault → String
  | os e path => s!"[Errno {e.code}] {e.text}: {Text.quote path}"
  | between e path target => s!"[Errno {e.code}] {e.text}: {Text.quote path} -> {Text.quote target}"
  | told m => m
  | nullByte => "embedded null byte"

inductive Fault
  /-- A subscriber gave up. -/
  | subscriber (message : String)
  /-- A run of the compiler did not get under way, for a reason that is not the system's refusal. -/
  | setup (name : String) (message : String)
  /-- The terminal was not able to show something. -/
  | unshown (name : String) (message : String)
  /-- A document name that is not text was used where text is needed. -/
  | nameNotText (typeName : String)
  /-- A list or an object was used for the name of a document. -/
  | nameNotKey (typeName : String)
  | json (f : Json.Fault)
  | exportFailed (failure : Failure) (message : String)
  | alreadyStarted
  /-- Cancelling tasks that wait for each other in a circle. -/
  | nestedTooDeep
  /-- A connection broke while it was written to. -/
  | connectionLost
  /-- A connection was used after it broke. -/
  | connectionClosed
  | file (f : FileFault)
  | notText (f : Text.Utf8.Fault)
  | unknownLevel (level : String)
  | notNumber (whole : Bool) (text : String)
  /-- The command was given no kind of export, or no place for it. -/
  | kindNotGiven
  | outputNotGiven
  | wholeTooLong (digits : Nat)
  | unknownDocument (id : DocId)
  /-- An answer holds a number that JSON has no form for. -/
  | notWritable
  deriving DecidableEq, Repr

def Json.Fault.message : Json.Fault → String
  | malformed => "invalid JSON"
  | tooManyDigits n =>
    s!"Exceeds the limit ({Json.digitLimit} digits) for integer string conversion: value has {n} " ++
      "digits; use sys.set_int_max_str_digits() to increase the limit"
  | tooDeep inObject =>
    "maximum recursion depth exceeded while decoding a JSON " ++
      (if inObject then "object" else "array") ++ " from a unicode string"

/-- So much of a text that is no whole number is shown. -/
def quoteLimit : Nat := 200

def Fault.message : Fault → String
  | subscriber m => m
  | setup _ m => m
  | unshown _ m => m
  | nameNotText t => s!"'{t}' object is not subscriptable"
  | nameNotKey t => s!"unhashable type: '{t}'"
  | json f => f.message
  | exportFailed _ m => Settings.exportErrorTitle ++ "\n" ++ m
  | alreadyStarted =>
    "bootstrap() has already been called. Use get_current_components() to access existing components."
  | nestedTooDeep => "maximum recursion depth exceeded while calling a Python object"
  | connectionLost => ""
  | connectionClosed => "disconnected"
  | file f => f.message
  | notText f => f.message
  | unknownLevel l => "Unknown level: " ++ Text.quote l
  | notNumber true t =>
    "invalid literal for int() with base 10: " ++ String.ofList ((Text.quote t).toList.take quoteLimit)
  | notNumber false t => "could not convert string to float: " ++ Text.quote t
  | kindNotGiven => "[] is not a valid ExportKind"
  | outputNotGiven => "expected str, bytes or os.PathLike object, not list"
  | wholeTooLong n => (Json.Fault.tooManyDigits n).message
  | unknownDocument id => id.toJson.inner
  | notWritable => "Out of range float values are not JSON compliant"

end InkPreview
