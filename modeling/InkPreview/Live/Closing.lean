import InkPreview.Live.Schedule
/-!
Closing documents and waiting for them. A closed document is forgotten at once; its tasks are
cancelled and awaited. A closing fails when cancelling one of them has no end.
-/
namespace InkPreview.Live.World

/-- Takes the slot of a document away together with its preview. -/
def removeSlot (w : World) (doc : DocId) : Option SlotId × World :=
  let s := w.slotOf? doc
  let w := match s with
    | some s => w.modifySlot s fun k => { k with isOpen := false }
    | none => w
  let w := match doc with
    | .name name => { w with gallery := w.gallery.discard name }
    | _ => w
  (s, w.gaugeDocuments)

/-- All tasks of the closed document have ended. -/
def closed (w : World) (t : TaskId) (frames : List Frame) (doc : DocId) (count : Nat) : World :=
  match doc with
  | .name name => (w.note (.closed name count)).ret t frames .unit
  | other => w.fail t frames (.nameNotText other.typeName)

def beginClose (w : World) (t : TaskId) (frames : List Frame) (doc : DocId) : World :=
  let (s, w) := w.removeSlot doc
  match s with
  | none => w.ret t frames .unit
  | some s =>
    let tasks := (w.slots[s]?.map (·.tasks)).getD []
    if tasks.isEmpty then w.closed t frames doc 0
    else
      let (reach, w) := w.cancellingAll tasks
      if reach = .endless then w.fail t frames .nestedTooDeep
      else w.gather t (.closing doc tasks.length :: frames) tasks

/-- Waits for the tasks of a slot until none is left. -/
def awaitIdle (w : World) (t : TaskId) (frames : List Frame) (s : SlotId) : World :=
  let tasks := (w.slots[s]?.map (·.tasks)).getD []
  let running := tasks.filter fun k => !w.hasEnded k
  if running.isEmpty then w.ret t frames .unit else w.gather t (.idling s :: frames) running

def beginWaitIdle (w : World) (t : TaskId) (frames : List Frame) (doc : DocId) : World :=
  match w.slotOf? doc with
  | none => w.ret t frames .unit
  | some s => w.awaitIdle t frames s

/-- Closes the documents one after the other. -/
def closeNext (w : World) (t : TaskId) (frames : List Frame) : List DocId → World
  | [] => (w.note .previewsStopped).ret t frames .unit
  | doc :: rest => w.call t (.closingAll rest :: frames) (.close doc)

end InkPreview.Live.World
