import InkPreview.Live.Schedule
/-!
Edits and their delivery. An edit gets the next generation of its document and replaces the request
that still waited for quiet. Text that needs no compiler is delivered at once; other text is handed
to a background task, and a pending update is delivered meanwhile. Subscribers are told one after
the other, and no longer once the update is out of date.
-/
namespace InkPreview.Live.World

/-- The request that waits for quiet gives way to a newer edit. -/
def abandonPending (w : World) (s : SlotId) : World :=
  let pending := w.slots[s]?.bind (·.pending)
  let w := w.modifySlot s fun k => { k with pending := none }
  match pending with
  | some t => if w.hasEnded t then w else (w.cancel t).count "debounce.abandoned"
  | none => w

/-- Starts the background task of a request and registers it with its slot. -/
def startRequest (w : World) (r : Request) : World :=
  let (b, w) := w.spawn (.background r) fun b => [.forget r.slot b]
  w.modifySlot r.slot fun k => { k with pending := some b, tasks := k.tasks ++ [b] }

def noteRendering (w : World) (how : Rendering) (a : Artifact) : World :=
  let w := { w with metrics := how.count a.mode.kind w.metrics }
  if how = .built then w.note (.pageBuilt a.doc a.mode.kind a.html.length) else w

/-- Renders a mode and begins to tell the subscribers, unless the edit is out of date. -/
def deliver (w : World) (t : TaskId) (frames : List Frame) (s : SlotId) (doc : String)
    (generation : Nat) (mode : Mode) : World :=
  if !w.isCurrent s generation then (w.count "compile.stale_dropped").ret t frames .unit
  else
    let (a, how, gallery) := w.gallery.render doc mode
    let w := { w with gallery }.noteRendering how a
    let u : Update := ⟨s, doc, generation, mode, a⟩
    let w := w.modifySlot s fun k => { k with lastUpdate := some u }
    w.ret t (.notifying u (List.range w.subscribers.length) :: frames) .unit

def beginEdit (w : World) (t : TaskId) (frames : List Frame) (doc : DocId) (text : String) : World :=
  let (s, w) := w.ensureSlot doc
  let g := w.generationOf s + 1
  let w := w.modifySlot s fun k => { k with generation := g }
  let w := w.abandonPending s
  match doc with
  | .name name =>
    match classify text with
    | some mode =>
      (w.note (.fastPath name g mode.kind)).deliver t (.issued g :: frames) s name g mode
    | none =>
      let w := (w.note (.scheduled name g text)).startRequest ⟨s, name, g, text⟩
      w.deliver t (.issued g :: frames) s name g .pending
  | other => w.fail t frames (.nameNotText other.typeName)

/-! ### Telling subscribers -/

/-- Goes on with what a subscriber has to do. -/
def act (w : World) (t : TaskId) (frames : List Frame) (i : Nat) (u : Update) :
    List Action → World
  | [] => w.ret t frames .unit
  | a :: rest =>
    let frames' := .acting i u rest :: frames
    match a with
    | .wait micros => w.sleep t frames' micros
    | .edit text => w.call t frames' (.edit (.name u.doc) text)
    | .close => w.call t frames' (.close (.name u.doc))
    | .ask op => w.call t frames' op
    | .fail m => w.fail t frames (.subscriber m)
    | .report => (w.emit (.slowDone w.clock i)).act t frames i u rest
    | .skip howMany => w.ret t (.acting i u (rest.drop (howMany ((w.calls[i]?).getD 0))) :: frames) .unit

def previewMessage (u : Update) : Web.Message :=
  .preview u.doc u.generation u.mode.kind u.artifact.html

/-- One subscriber is told of an update. -/
def tell (w : World) (t : TaskId) (frames : List Frame) (i : Nat) (u : Update) : World :=
  let n := (w.calls[i]?).getD 0 + 1
  let w : World := { w with calls := w.calls.modify i fun _ => n }
  match w.subscribers[i]? with
  | some (.script acts) => (w.emit (.told w.clock i u)).act t frames i u (acts n)
  | some .clients => w.ret t (.broadcasting (previewMessage u) none w.clients :: frames) .unit
  | none => w.ret t frames .unit

/-- The next subscriber is told, if the update still counts. -/
def tellNext (w : World) (t : TaskId) (frames : List Frame) (u : Update) : List Nat → World
  | [] => w.ret t frames .unit
  | i :: rest =>
    if w.isCurrent u.slot u.generation then w.tell t (.notifying u rest :: frames) i u
    else w.ret t frames .unit

/-- A subscriber that fails is noted, and the next one is told. -/
def subscriberFailed (w : World) (t : TaskId) (frames : List Frame) (u : Update) (rest : List Nat)
    (f : Fault) : World :=
  ((w.count "callback.errors").note (.subscriberFailed f.message)).tellNext t frames u rest

end InkPreview.Live.World
