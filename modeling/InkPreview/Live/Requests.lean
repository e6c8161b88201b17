import InkPreview.Live.Schedule
import InkPreview.Page.Editor
/-!
Requests of the web interface.
-/
namespace InkPreview.Live.World

def metricsJson (m : Metrics) : Json :=
  let table (entries : List (String × Decimal.Number)) : Json :=
    .obj (entries.map fun e => (e.1, .num e.2))
  .obj [("counters", table m.counters), ("gauges", table m.gauges)]

def snippetsJson : Json :=
  let entry (s : Snippet) : Json := .obj [("name", .str s.name), ("ink", .str s.ink)]
  let group (g : SnippetGroup) : Json :=
    .obj [("name", .str g.name), ("snippets", .list (g.snippets.map entry))]
  .list (Snippet.groups.map group)

/-- The list of documents, unless one has a name that cannot be written. -/
def documentsResponse (l : Library) : Web.Response :=
  if l.documents.all (·.id.isWritable) then .json 200 (.list (l.newestFirst.map Document.toJson))
  else .crashed .notWritable

def editorPage (l : Library) : String :=
  Page.editor (l.newestFirst.map fun d => (d.id.toJson.text, d.title))

def editResponse (doc title : String) (generation : Nat) : Web.Response :=
  .json 200 (.obj [("document_id", .str doc), ("title", .str title), ("generation", .whole generation)])

def respond (w : World) (t : TaskId) (frames : List Frame) (r : Web.Response) : World :=
  w.ret t frames (.response r)

/-- A document is created under a new name and previewed. -/
def createDocument (w : World) (t : TaskId) (frames : List Frame) (title content : String) : World :=
  let (d, library) := w.library.create (some title) content none
  { w with library }.call t (.answeringEdit d.id.toJson.text d.title :: frames) (.edit d.id d.content)

def updateText (w : World) (t : TaskId) (frames : List Frame) (doc content : String) : World :=
  let (d, library) := w.library.setContent (.name doc) content
  { w with library }.call t (.answeringEdit doc d.title :: frames) (.edit (.name doc) content)

def exportDocument (w : World) (t : TaskId) (frames : List Frame) (doc : String)
    (kind : ExportKind) : World :=
  match w.library.find? (.name doc) with
  | none => w.respond t frames (.detail 404 "Document not found")
  | some d =>
    w.call t (.answeringExport :: frames) (.exportAs doc d.content kind (some d.title))

def takeRoute (w : World) (t : TaskId) (frames : List Frame) (r : Web.Request) :
    Web.Route → World
  | .index => w.respond t frames (.html (editorPage w.library))
  | .listDocuments => w.respond t frames (documentsResponse w.library)
  | .createDocument =>
    match r.object with
    | .error answer => w.respond t frames answer
    | .ok body =>
      match Web.Request.stringField body "title" (some Library.untitled),
          Web.Request.stringField body "content" (some "") with
      | some title, some content => w.createDocument t frames title content
      | _, _ => w.respond t frames .invalid
  | .updateText doc =>
    match r.object with
    | .error answer => w.respond t frames answer
    | .ok body =>
      match Web.Request.stringField body "content" none with
      | some content => w.updateText t frames doc content
      | none => w.respond t frames .invalid
  | .preview doc =>
    w.respond t frames { Web.Response.html (w.gallery.current doc) with cacheControl := some "no-cache" }
  | .exportAs doc kind =>
    match ExportKind.ofName? kind with
    | some kind => w.exportDocument t frames doc kind
    | none => w.respond t frames .invalid
  | .listSnippets => w.respond t frames (.json 200 snippetsJson)
  | .metrics => w.respond t frames (.json 200 (metricsJson w.metrics))

def beginRequest (w : World) (t : TaskId) (frames : List Frame) (r : Web.Request) : World :=
  match Web.Route.find r.method r.decodedPath with
  | .error answer => w.respond t frames answer
  | .ok route => w.takeRoute t (.answering :: frames) r route

def editAnswered (w : World) (t : TaskId) (frames : List Frame) (doc title : String) (v : Value) :
    World :=
  match v with
  | .generation g => w.respond t frames (editResponse doc title g)
  | _ => w.ret t frames v

def exportAnswered (w : World) (t : TaskId) (frames : List Frame) (v : Value) : World :=
  match v with
  | .exported e => w.respond t frames (.download e)
  | _ => w.ret t frames v

/-- A failed export is an answer of its own; any other fault crashes the request. -/
def exportRefused (w : World) (t : TaskId) (frames : List Frame) (f : Fault) : World :=
  match f with
  | .exportFailed k m =>
    w.respond t frames (.json 422 (.obj [("kind", .str k.name), ("message", .str m)]))
  | f => w.fail t frames f

end InkPreview.Live.World
