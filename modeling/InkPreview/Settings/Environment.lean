import InkPreview.Decimal.Literal
import InkPreview.Fault
/-!
What the environment can change: where the compiler and the story runtime are, how long the compiler
may take, where the editor listens and how much is logged.
-/
namespace InkPreview.Settings

open Decimal (Binary64 Number)

structure Configuration where
  /-- The directory that the program's own files are in. -/
  home : String
  /-- The compiler that is tried first. -/
  compiler : String
  /-- Seconds before the compiler is stopped. -/
  limit : Binary64
  /-- The local story runtime. -/
  runtime : String
  host : String
  socket : Int
  logLevel : String
  deriving DecidableEq, Repr

namespace Configuration

def standard (home : String) : Configuration where
  home
  compiler := home ++ "/bin/" ++ compilerName
  limit := .ofInt 30
  runtime := home ++ "/static/ink.min.js"
  host := "127.0.0.1"
  socket := 8765
  logLevel := "INFO"

def templates (c : Configuration) : String := c.home ++ "/templates"

def readLimit (c : Configuration) : Option String → Except Fault Configuration
  | none => .ok c
  | some s =>
    match Decimal.Literal.real? s with
    | some limit => .ok { c with limit }
    | none => .error (.notNumber false s)

def readSocket (c : Configuration) : Option String → Except Fault Configuration
  | none => .ok c
  | some s =>
    match Decimal.Literal.whole Json.digitLimit s with
    | .ok socket => .ok { c with socket }
    | .error .malformed => .error (.notNumber true s)
    | .error (.tooLong n) => .error (.wholeTooLong n)

/-- The standard configuration with the changes the environment asks for. The time limit is read
before the socket, so of two bad values the limit is the one reported. -/
def ofEnvironment (home : String) (env : List (String × String)) : Except Fault Configuration := do
  let c := standard home
  let text (key fallback : String) : String := (env.lookup key).getD fallback
  let c := { c with
    compiler := text "INKIES_INKLECATE" c.compiler
    runtime := text "INKIES_INKJS_PATH" c.runtime
    host := text "INKIES_HOST" c.host
    logLevel := text "INKIES_LOG_LEVEL" c.logLevel }
  let c ← c.readLimit (env.lookup "INKIES_COMPILE_TIMEOUT")
  c.readSocket (env.lookup "INKIES_PORT")

end Configuration
end InkPreview.Settings
