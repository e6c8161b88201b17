import InkPreview.Document
import InkPreview.Gallery
/-!
An open document as the preview sees it: the number of its newest edit, the request that still
waits for quiet, the lock around its compiler and the tasks that work for it.
-/
namespace InkPreview.Live

abbrev TaskId := Nat
abbrev SlotId := Nat

/-- A result handed to subscribers. `slot` tells one opening of a document from another. -/
structure Update where
  slot : SlotId
  doc : String
  generation : Nat
  mode : Mode
  artifact : Artifact
  deriving DecidableEq, Repr

/-- An edit whose text has to be compiled. -/
structure Request where
  slot : SlotId
  doc : String
  generation : Nat
  text : String
  deriving DecidableEq, Repr

/-- How far a task in the queue of a lock is: still waiting, told that it is its turn, or
cancelled while it waited. -/
inductive Waiter
  | waiting
  | called
  | cancelled
  deriving DecidableEq, Repr

structure Lock where
  held : Bool
  queue : List (TaskId × Waiter)
  deriving DecidableEq, Repr

namespace Lock

def free : Lock := ⟨false, []⟩

/-- Nobody is ahead: the lock is free and everyone in the queue has given up. -/
def isOpen (l : Lock) : Bool := !l.held && l.queue.all fun w => w.2 == .cancelled

def mark (l : Lock) (t : TaskId) (s : Waiter) : Lock :=
  { l with queue := l.queue.map fun w => if w.1 == t then (t, s) else w }

def leave (l : Lock) (t : TaskId) : Lock := { l with queue := l.queue.filter fun w => w.1 != t }

/-- The task whose turn comes when the lock is free, unless it has been told already. -/
def next? (l : Lock) : Option TaskId :=
  match l.queue with
  | (t, .waiting) :: _ => some t
  | _ => none

end Lock

structure Slot where
  doc : DocId
  isOpen : Bool
  generation : Nat
  /-- The task that waits for quiet on behalf of the newest edit. -/
  pending : Option TaskId
  lock : Lock
  /-- The tasks of the slot that are not known to have ended. -/
  tasks : List TaskId
  lastUpdate : Option Update
  deriving DecidableEq, Repr

def Slot.new (doc : DocId) : Slot := ⟨doc, true, 0, none, Lock.free, [], none⟩

end InkPreview.Live
