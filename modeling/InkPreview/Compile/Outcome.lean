/-!
What one run of the compiler comes to: a compiled story, or a failure with its diagnostics.
-/
namespace InkPreview

/-- Why there is no compiled story: no compiler, a compiler that failed or could not run, or files
that could not be written or read. -/
inductive Failure
  | toolMissing
  | processError
  | ioError
  deriving DecidableEq, Repr, Inhabited

namespace Failure

def name : Failure → String
  | toolMissing => "tool_missing"
  | processError => "process_error"
  | ioError => "io_error"

def title : Failure → String
  | toolMissing => "Compiler not found"
  | processError => "Compilation failed"
  | ioError => "Compiler output unreadable"

def all : List Failure := [toolMissing, processError, ioError]

def ofName? (s : String) : Option Failure := all.find? (·.name == s)

end Failure

inductive Outcome
  | success (story : String)
  | failed (failure : Failure) (message : String)
  deriving DecidableEq, Repr, Inhabited

def Outcome.ok : Outcome → Bool
  | .success _ => true
  | .failed _ _ => false

end InkPreview
