import InkPreview.Journal
import InkPreview.Live.Task
/-!
The state of a running editor: open documents, tasks, processes, clients, stored documents, and the
history of what could be seen from outside. Tasks, slots, processes, groups and connections are
numbered in the order of their creation and never removed.
-/
namespace InkPreview.Live

open Decimal (Number)

/-- What happened, with the time in millionths of a second where it matters. -/
inductive Event
  | spawned (time : Nat) (p : ProcessId) (executable source : String)
  | exited (time : Nat) (p : ProcessId) (code : Int)
  | killed (time : Nat) (p : ProcessId)
  | reaped (time : Nat) (p : ProcessId)
  | told (time : Nat) (subscriber : Nat) (u : Update)
  | slowDone (time : Nat) (subscriber : Nat)
  | editDone (time : Nat) (generation : Nat)
  | sent (time : Nat) (client : ClientId) (m : Web.Message)
  | refused (client : ClientId)
  | crashed (client : ClientId) (f : Fault)
  | note (n : Note)

/-- What the search for a compiler answers, and what it notes when asked. -/
structure Finder where
  answer : Except Fault (Option String)
  notes : List Note

/-- How the editor is set up. -/
structure Setup where
  /-- The quiet time, in millionths of a second. -/
  quiet : Int
  /-- Seconds before the compiler is killed; zero sets no limit. -/
  limit : Number
  /-- Whether a wait under a limit that is cancelled when its process has just ended heeds the
  cancellation. Otherwise it hands over the end of the process. -/
  heedsLate : Bool
  /-- How the compiler behaves on a source the next time it is run. -/
  child : String → Child

structure World where
  setup : Setup
  finder : Finder
  subscribers : List Subscriber
  /-- How often each subscriber has been told. -/
  calls : List Nat
  metrics : Metrics
  gallery : Gallery
  library : Library
  slots : List Slot
  tasks : List Task
  groups : List Group
  processes : List Process
  connections : List Connection
  /-- The clients that updates are sent to. -/
  clients : List ClientId
  clock : Nat
  alarms : List Alarm
  queue : List Job
  /-- The running task, with its frames and what moves it. -/
  current : Option (TaskId × List Frame × Signal)
  /-- Newest first. -/
  history : List Event

namespace World

def start (setup : Setup) (finder : Finder) (gallery : Gallery) (subscribers : List Subscriber) :
    World where
  setup; finder; subscribers; gallery
  calls := subscribers.map fun _ => 0
  metrics := .new
  library := .new
  slots := []
  tasks := []
  groups := []
  processes := []
  connections := []
  clients := []
  clock := 0
  alarms := []
  queue := []
  current := none
  history := []

/-! ### What is seen from outside -/

def emit (w : World) (e : Event) : World := { w with history := e :: w.history }

def note (w : World) (n : Note) : World := w.emit (.note n)

def noteAll (w : World) (ns : List Note) : World := ns.foldl note w

def count (w : World) (name : String) : World := { w with metrics := w.metrics.count name }

def countBy (w : World) (name label value : String) : World :=
  { w with metrics := w.metrics.countBy name label value }

/-! ### Slots -/

def modifySlot (w : World) (s : SlotId) (f : Slot → Slot) : World :=
  { w with slots := w.slots.modify s f }

/-- The open slots with their numbers, in the order in which they were opened. -/
def openSlots (w : World) : List (SlotId × Slot) :=
  (w.slots.zipIdx.filter fun p => p.1.isOpen).map fun p => (p.2, p.1)

/-- The open slot of a document. -/
def slotOf? (w : World) (doc : DocId) : Option SlotId :=
  (w.openSlots.find? fun p => p.2.doc.same doc).map (·.1)

def generationOf (w : World) (s : SlotId) : Nat := (w.slots[s]?.map (·.generation)).getD 0

/-- An edit still counts: its slot is open and no newer edit has come. -/
def isCurrent (w : World) (s : SlotId) (generation : Nat) : Bool :=
  match w.slots[s]? with
  | some k => k.isOpen && k.generation == generation
  | none => false

/-- Shows how many documents are open. -/
def gaugeDocuments (w : World) : World :=
  let n : Number := .whole w.openSlots.length
  { w with metrics := w.metrics.gauge "coordinator.documents" n [] }

/-- The slot of a document, which is opened if need be. -/
def ensureSlot (w : World) (doc : DocId) : SlotId × World :=
  match w.slotOf? doc with
  | some s => (s, w)
  | none => (w.slots.length, { w with slots := w.slots ++ [Slot.new doc] }.gaugeDocuments)

/-! ### Queries -/

def latestGeneration (w : World) (doc : DocId) : Nat := (w.slotOf? doc).elim 0 w.generationOf

def isLatest (w : World) (doc : DocId) (generation : Nat) : Bool :=
  (w.slotOf? doc).elim false fun s => w.generationOf s == generation

def lastUpdate? (w : World) (doc : DocId) : Option Update :=
  (w.slotOf? doc).bind fun s => w.slots[s]?.bind (·.lastUpdate)

def isCompiling (w : World) (doc : DocId) : Bool :=
  (w.slotOf? doc).elim false fun s => (w.slots[s]?.map (·.lock.held)).getD false

def openDocs (w : World) : List DocId := w.openSlots.map (·.2.doc)

/-! ### Tasks -/

def modifyTask (w : World) (t : TaskId) (f : Task → Task) : World :=
  { w with tasks := w.tasks.modify t f }

def hasEnded (w : World) (t : TaskId) : Bool := (w.tasks[t]?.map Task.ended).getD true

/-- Whether a task has ended on its cancellation. -/
def wasCancelled (w : World) (t : TaskId) : Bool :=
  match w.tasks[t]?.bind (·.result) with
  | some .cancelled => true
  | _ => false

/-- The running task goes on with these frames and this signal. -/
def go (w : World) (t : TaskId) (frames : List Frame) (s : Signal) : World :=
  { w with current := some (t, frames, s) }

def call (w : World) (t : TaskId) (frames : List Frame) (op : Op) : World :=
  w.go t frames (.start op)

def ret (w : World) (t : TaskId) (frames : List Frame) (v : Value) : World :=
  w.go t frames (.value v)

def fail (w : World) (t : TaskId) (frames : List Frame) (f : Fault) : World :=
  w.go t frames (.fault f)

def unwind (w : World) (t : TaskId) (frames : List Frame) : World := w.go t frames .cancelled

end World
end InkPreview.Live
