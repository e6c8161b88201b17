import InkPreview.Live.Schedule
/-!
Messages of clients. An edit is stored, previewed and acknowledged; a document that is opened is
previewed as stored; a message that asks for nothing that can be done gets its reason back.
-/
namespace InkPreview.Live.World

/-- The sender is told why its message was refused. -/
def refuse (w : World) (t : TaskId) (frames : List Frame) (c : ClientId) (reason : String) : World :=
  (w.note (.messageRefused reason)).call t frames (.send c (.error reason))

def store (w : World) (doc : DocId) (content : String) : World :=
  { w with library := (w.library.setContent doc content).2 }

/-- Closing what cannot be a name does nothing as long as there is nothing to compare it with. -/
def closeUnnamed (w : World) (t : TaskId) (frames : List Frame) (c : ClientId) (doc : Json)
    (typeName : String) : World :=
  if w.openSlots.isEmpty && w.gallery.previews.entries.isEmpty then
    w.gaugeDocuments.call t frames (.send c (.closeResult doc))
  else w.fail t frames (.nameNotKey typeName)

def ask (w : World) (t : TaskId) (frames : List Frame) (c : ClientId) : Web.Ask → World
  | .edit doc text =>
    match DocId.ofJson doc with
    | .error typeName => w.fail t frames (.nameNotKey typeName)
    | .ok doc => (w.store doc text).call t (.acknowledging c doc :: frames) (.edit doc text)
  | .view doc =>
    match DocId.ofJson doc with
    | .error typeName => w.fail t frames (.nameNotKey typeName)
    | .ok id =>
      match w.library.content? id with
      | some content => w.call t frames (.edit id content)
      | none => w.refuse t frames c ("unknown document: " ++ doc.text)
  | .close doc =>
    if doc.isGiven then
      match DocId.ofJson doc with
      | .error typeName => w.closeUnnamed t frames c doc typeName
      | .ok id => w.call t (.confirming c doc :: frames) (.close id)
    else w.call t frames (.send c (.closeResult doc))
  | .snippet s => w.call t frames (.send c (.snippet s))
  | .refused reason => w.refuse t frames c reason

def beginHandle (w : World) (t : TaskId) (frames : List Frame) (c : ClientId) (data : String) :
    World :=
  match Web.Ask.ofText data with
  | .error f => w.fail t frames (.json f)
  | .ok a => w.ask t frames c a

end InkPreview.Live.World
