import InkPreview.Text.Replace
/-!
Text inside a page: as a string of a script, as the data of a script element, and as markup.
-/
namespace InkPreview.Page

/-- A closing tag written so that it closes nothing. -/
def escapeClosing (cs : List Char) : List Char := Text.replace ['<', '/'] ['<', '\\', '/'] cs

/-- Text for a string of a script. Carriage returns are dropped before closing tags are sought, so
dropping one cannot make a tag. -/
def escapeScript (cs : List Char) : List Char :=
  let cs := Text.replace ['\\'] ['\\', '\\'] cs
  let cs := Text.replace ['"'] ['\\', '"'] cs
  let cs := Text.replace ['\n'] ['\\', 'n'] cs
  let cs := Text.replace ['\r'] [] cs
  escapeClosing cs

def escapeMarkupChar : Char → List Char
  | '&' => "&amp;".toList
  | '<' => "&lt;".toList
  | '>' => "&gt;".toList
  | '\'' => "&#39;".toList
  | '"' => "&#34;".toList
  | c => [c]

def escapeMarkup (cs : List Char) : List Char := cs.flatMap escapeMarkupChar

end InkPreview.Page
