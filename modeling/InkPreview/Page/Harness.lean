import InkPreview.Page.Build
import InkPreview.Page.Elements
/-!
What a page comes to show. The last script of the page reads its content from a string of its own or from the element
of the story, and goes by how the content starts.
-/
namespace InkPreview.Page

/-! ### Content -/

/-- The characters that the script language cuts off the ends of a text. -/
def isScriptBlank (c : Char) : Bool :=
  let n := c.toNat
  (0x9 ≤ n && n ≤ 0xd) || n == 0x20 || n == 0xa0 || n == 0x1680 || (0x2000 ≤ n && n ≤ 0x200a) || n == 0x2028 ||
    n == 0x2029 || n == 0x202f || n == 0x205f || n == 0x3000 || n == 0xfeff

def scriptTrim (cs : List Char) : List Char :=
  ((cs.dropWhile isScriptBlank).reverse.dropWhile isScriptBlank).reverse

inductive Shown
  | placeholder
  /-- The content is parsed and run as a story. -/
  | story (content : List Char)
  | error (message : List Char)
  /-- The notice that the content is still to be compiled. -/
  | notice
  deriving DecidableEq, Repr

def dispatch (content : List Char) : Shown :=
  match scriptTrim content with
  | [] => .placeholder
  | c :: _ =>
    if c = Settings.storyMark then .story content
    else if Settings.errorPrefix.toList.isPrefixOf content then .error (content.drop Settings.errorPrefix.length)
    else .notice

/-! ### The script -/

/-- The character that an escape of one character stands for. Longer escapes are not read. -/
def unescape : Char → Option Char
  | 'b' => some '\x08'
  | 't' => some '\t'
  | 'n' => some '\n'
  | 'v' => some '\x0b'
  | 'f' => some '\x0c'
  | 'r' => some '\r'
  | c => if c.isDigit || ['x', 'u', '\n', '\r', '\u2028', '\u2029'].contains c then none else some c

/-- A string of the script behind its opening quote, and what follows it. It holds no line end. -/
def stringLiteral : List Char → Option (List Char × List Char)
  | [] => none
  | '"' :: cs => some ([], cs)
  | '\\' :: cs =>
    match cs with
    | [] => none
    | c :: cs => do
      let d ← unescape c
      let (text, rest) ← stringLiteral cs
      pure (d :: text, rest)
  | c :: cs =>
    if c = '\n' ∨ c = '\r' then none
    else do
      let (text, rest) ← stringLiteral cs
      pure (c :: text, rest)

/-- What follows a given start of a text. -/
def behind (start cs : List Char) : Option (List Char) :=
  if start.isPrefixOf cs then some (cs.drop start.length) else none

/-- The value that the script reads, and the code that follows it. -/
def contentExpression (story : Option (List Char)) : List Char → Option (List Char × List Char)
  | '"' :: cs => stringLiteral cs
  | cs => do
    let rest ← behind storyLookup.toList cs
    pure (← story, rest)

def scriptStart : List Char := "\n        var storyContent = ".toList

def pageEnd : List Char := "</script>\n</body>\n</html>\n".toList

/-- The code of the script behind the value that it reads. -/
def scriptCode : List Char :=
  let code := (beforePrefix ++ Settings.errorPrefix ++ afterPrefix).toList
  code.take (code.length - pageEnd.length)

/-- What the script of the page shows, given the text of the element with the story. -/
def runScript (story : Option (List Char)) (code : List Char) : Option Shown := do
  let (content, rest) ← contentExpression story (← behind scriptStart code)
  if rest = scriptCode then some (dispatch content) else none

def storyId : Attribute := ⟨"id".toList, "story-json".toList⟩

/-- What a page shows. Nothing is shown if its last script is not the one of the pages that are built. -/
def shown (page : String) : Option Shown := do
  let es := scripts (Text.unifyLines page.toList)
  let story := es.find? (·.attributes.contains storyId)
  runScript (story.map (·.text)) (← es.getLast?).text

end InkPreview.Page
