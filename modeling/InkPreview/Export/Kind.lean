import InkPreview.Compile.Outcome
import InkPreview.Settings.Constants
/-!
The three things a story can be exported as, and what an export hands over.
-/
namespace InkPreview

inductive ExportKind
  | source
  | compiled
  | web
  deriving DecidableEq, Repr, Inhabited

namespace ExportKind

def name : ExportKind → String
  | source => "source"
  | compiled => "compiled"
  | web => "web"

def all : List ExportKind := [source, compiled, web]

def ofName? (s : String) : Option ExportKind := all.find? (·.name == s)

def filename : ExportKind → String
  | source => Settings.sourceFile
  | compiled => Settings.compiledFile
  | web => Settings.webFile

def extension : ExportKind → String
  | source => ".ink"
  | compiled => ".json"
  | web => ".html"

def mediaType : ExportKind → String
  | source => "text/plain"
  | compiled => "application/json"
  | web => "text/html"

def needsCompile : ExportKind → Bool
  | source => false
  | compiled | web => true

end ExportKind

/-- The result of an export. -/
structure Exported where
  kind : ExportKind
  content : String
  deriving DecidableEq, Repr, Inhabited

def Exported.filename (e : Exported) : String := e.kind.filename

end InkPreview
