import InkPreview.Files.Tree
import InkPreview.Journal
import InkPreview.Page.Escape
/-!
The tag that loads the story runtime into a page: the text of a local file, or an address.
-/
namespace InkPreview.Page

/-- What was found at the place of the local runtime. -/
inductive LocalRuntime
  | absent
  | text (content : String)
  | unreadable (path reason : String)
  deriving DecidableEq, Repr

/-- Looks at the place of the local runtime. What is no file there counts as nothing. -/
def LocalRuntime.find (t : Files.Tree) (path : String) : Except FileFault LocalRuntime :=
  if path = "" then .ok .absent
  else
    let path := (Files.Path.ofText path).text
    (t.isFile path).map fun isFile =>
      if isFile then
        match t.readText path with
        | .ok content => .text content
        | .error e => .unreadable path e.message
      else .absent

/-- The runtime as part of the page, kept from closing its own element. -/
def inlineTag (content : String) : String :=
  let body := Text.replace "</script".toList "<\\/script".toList content.toList
  "<script>/* inkjs (" ++ toString body.length ++ " bytes) */\n" ++ String.ofList body ++ "</script>"

def urlTag (url : String) : String := "<script src=\"" ++ url ++ "\"></script>"

/-- An empty address stands for the usual one. -/
def urlOr (url : Option String) : String :=
  match url with
  | none | some "" => Settings.runtimeUrl
  | some u => u

/-- The tag, and what is noted on the way to it. -/
def runtimeTag (runtime : LocalRuntime) (url : Option String) : String × List Note :=
  let url := urlOr url
  match runtime with
  | .text content => (inlineTag content, [])
  | .unreadable path reason => (urlTag url, [.runtimeUnreadable path reason, .runtimeFromUrl url])
  | .absent => (urlTag url, [.runtimeFromUrl url])

end InkPreview.Page
