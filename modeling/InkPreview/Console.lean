import InkPreview.Fault
import InkPreview.Mode
/-!
What the terminal shows of a mode: a short line, the compiler's message in a panel, or a summary
of the compiled story in a panel.
-/
namespace InkPreview

inductive Shown
  | text (plain style : String)
  | panel (title titleAlign borderStyle body : String)
  | markup (text : String)
  deriving DecidableEq, Repr

namespace Console

/-- What becomes of the things that are handed to the terminal. -/
structure Terminal where
  /-- A text without the characters that a terminal acts on instead of showing them. -/
  visible : String → String
  /-- Why something cannot be shown, if it cannot. Titles and marked up texts may be ill-formed. -/
  refusal : Shown → Option Fault

def insertKey (k : String) : List String → List String
  | [] => [k]
  | k' :: rest => if k' < k then k' :: insertKey k rest else k :: k' :: rest

/-- The version and the keys of a story, or how long a text is that is none. -/
def summary (story : String) : Except Json.Fault String :=
  let size := toString story.length ++ " chars"
  match Json.read story with
  | .ok (.obj members) =>
    let version := (members.lookup "inkVersion").elim "?" Json.text
    let keys := (members.map (·.1)).foldr insertKey []
    .ok ("inkVersion " ++ version ++ ", " ++ size ++ "\nkeys: " ++ ", ".intercalate keys)
  | .ok _ => .ok size
  | .error (.tooDeep inObject) => .error (.tooDeep inObject)
  | .error _ => .ok (size ++ " (not valid JSON)")

def show? (terminal : Terminal) (mode : Mode) (title : String) : Except Json.Fault Shown :=
  match mode.kind with
  | .empty => .ok (.text "Start writing..." "italic dim")
  | .pending => .ok (.text "Compiling..." "dim")
  | .compilerError => .ok (.panel "Compilation Failed" "left" "red" (terminal.visible mode.text))
  | .compiled | .passthrough =>
    (summary mode.text).map fun s =>
      .panel (if title = "" then "Compiled" else title) "left" "green" (terminal.visible s)

end Console
end InkPreview
