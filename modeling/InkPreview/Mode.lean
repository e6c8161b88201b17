import InkPreview.Settings.Constants
import InkPreview.Text.Blank
/-!
What a preview shows. Blank text and text that already is a compiled story are shown without
compiling; `classify` tells the three kinds of text apart.
-/
namespace InkPreview

/-- The kinds of content a preview can show. -/
inductive Kind
  | empty
  | passthrough
  | compiled
  | compilerError
  | pending
  deriving DecidableEq, Repr, Inhabited

def Kind.name : Kind → String
  | .empty => "empty"
  | .passthrough => "passthrough_raw"
  | .compiled => "compiled"
  | .compilerError => "compiler_error"
  | .pending => "pending"

def Kind.all : List Kind := [.empty, .passthrough, .compiled, .compilerError, .pending]

def Kind.ofName? (s : String) : Option Kind := Kind.all.find? (·.name == s)

theorem Kind.ofName?_name (k : Kind) : Kind.ofName? k.name = some k := by
  cases k <;> decide

/-- A kind with its text: the text as written, the compiled story, or the whole diagnostics. -/
structure Mode where
  kind : Kind
  text : String
  deriving DecidableEq, Repr, Inhabited

namespace Mode

def empty : Mode := ⟨.empty, ""⟩
def passthrough (text : String) : Mode := ⟨.passthrough, text⟩
def compiled (story : String) : Mode := ⟨.compiled, story⟩
def compilerError (message : String) : Mode := ⟨.compilerError, message⟩
def pending : Mode := ⟨.pending, ""⟩

/-- The text the page works on. Two modes with one payload look the same. -/
def payload (m : Mode) : String :=
  match m.kind with
  | .compilerError => Settings.errorPrefix ++ m.text
  | .empty | .pending => ""
  | .passthrough | .compiled => m.text

end Mode

/-- The mode of a text that needs no compiler. A compiled story starts with an opening brace. -/
def classify (text : String) : Option Mode :=
  match Text.trim text.toList with
  | [] => some .empty
  | c :: _ => if c = Settings.storyMark then some (.passthrough text) else none

def needsCompile (text : String) : Bool := (classify text).isNone

end InkPreview
