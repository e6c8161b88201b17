import InkPreview.Compile.Child
import InkPreview.Export.Kind
import InkPreview.Fault
import InkPreview.Live.Slot
import InkPreview.Web.Message
import InkPreview.Web.Response
/-!
Tasks. A task is a stack of frames; a frame says how an operation goes on once the operation above
it has ended. The running task is moved by signals: an operation to begin, or what the operation
above came to.
-/
namespace InkPreview.Live

abbrev GroupId := Nat
abbrev ProcessId := Nat
abbrev ClientId := Nat

/-- What can be asked of the program. -/
inductive Op
  | edit (doc : DocId) (text : String)
  | close (doc : DocId)
  | waitIdle (doc : DocId)
  | closeAll
  | stop
  /-- One compile at once, outside the edits of any document. -/
  | compile (text : String)
  | exportAs (doc text : String) (kind : ExportKind) (title : Option String)
  /-- A message from a client. -/
  | handle (client : ClientId) (data : String)
  /-- The conversation with a client from its acceptance on. -/
  | converse (client : ClientId)
  | send (client : ClientId) (message : Web.Message)
  | request (r : Web.Request)
  | sleep (micros : Int)
  /-- Several operations side by side. -/
  | together (ops : List Op)
  /-- An edit whose end is reported. -/
  | reportedEdit (doc : DocId) (text : String)
  /-- The work behind an edit: a quiet time, then a compile. -/
  | background (r : Request)
  /-- Follows a process to its end. -/
  | follow (p : ProcessId)

inductive Value
  | unit
  | generation (g : Nat)
  | outcome (o : Outcome)
  | exported (e : Exported)
  | response (r : Web.Response)
  | several (vs : List Value)

/-- What an operation came to. -/
inductive Result
  | value (v : Value)
  | fault (f : Fault)
  | cancelled

inductive Signal
  | start (op : Op)
  | value (v : Value)
  | fault (f : Fault)
  | cancelled

def Result.signal : Result → Signal
  | value v => .value v
  | fault f => .fault f
  | cancelled => .cancelled

/-- One thing a subscriber does after it has been told of an update. It may edit or close the
document it is told of, or ask anything else of the program. -/
inductive Action
  | wait (micros : Int)
  | edit (text : String)
  | close
  | ask (op : Op)
  | fail (message : String)
  | report
  /-- Leaves out as many of the actions that follow as depends on how often the subscriber has been
  called by now. -/
  | skip (howMany : Nat → Nat)

/-- Who is told of updates: a script that may act differently at each call, or all clients. -/
inductive Subscriber
  | script (acts : Nat → List Action)
  | clients

/-- Why a process was killed. -/
inductive KillReason
  | timedOut
  | cancelled
  deriving DecidableEq, Repr

inductive Frame
  /-- An edit hands back its generation once its delivery is over. -/
  | issued (generation : Nat)
  /-- Subscribers that have not been told of an update yet. -/
  | notifying (u : Update) (rest : List Nat)
  /-- What a subscriber has still to do. -/
  | acting (subscriber : Nat) (u : Update) (rest : List Action)
  /-- The client that is being sent to, and those that follow. -/
  | broadcasting (m : Web.Message) (current : Option ClientId) (rest : List ClientId)
  | quiet (r : Request)
  | queueing (r : Request)
  /-- The lock is held while the compile above runs. -/
  | holding (r : Request)
  /-- A process runs without a limit. -/
  | running (p : ProcessId)
  /-- A process runs, followed by a task of its own, until it ends or its time is up. -/
  | limited (p : ProcessId) (follower : TaskId)
  /-- The task that follows a process has been cancelled, since the process is to be killed. -/
  | stoppingFollower (p : ProcessId) (why : KillReason)
  | following (p : ProcessId)
  | reaping (p : ProcessId) (why : KillReason)
  /-- A closed document waits for its tasks. -/
  | closing (doc : DocId) (count : Nat)
  | idling (slot : SlotId)
  | closingAll (rest : List DocId)
  | stopping
  | exporting (doc : String) (kind : ExportKind) (title : Option String)
  | acknowledging (client : ClientId) (doc : DocId)
  | confirming (client : ClientId) (doc : Json)
  /-- A client's message is being handled. -/
  | serving (client : ClientId)
  /-- A client's next message is awaited. -/
  | receiving (client : ClientId)
  | sending (client : ClientId) (m : Web.Message)
  | collecting (members : List TaskId)
  | reporting
  /-- A request waits for the edit it made, or for its export. -/
  | answeringEdit (doc title : String)
  | answeringExport
  | answering

/-- What a task waits for. -/
inductive Wait
  /-- Its turn: it is in the queue of runnable tasks. -/
  | turn
  | running
  | alarm
  | lock (s : SlotId)
  | message (c : ClientId)
  | group (g : GroupId)
  /-- The end of a task that works for it, or an alarm. -/
  | follower (t : TaskId)
  | ended
  deriving DecidableEq, Repr

/-- Entries of the queue of runnable work, first in, first out. -/
inductive Job
  | resume (t : TaskId)
  /-- A slot forgets a task that has ended. -/
  | forget (s : SlotId) (t : TaskId)
  /-- A group learns that one of its members has ended. -/
  | joined (g : GroupId)
  /-- A task learns that a task that worked for it has ended. -/
  | report (t : TaskId) (follower : TaskId)
  deriving DecidableEq, Repr

structure Task where
  frames : List Frame
  /-- What the task is resumed with. -/
  signal : Signal
  wait : Wait
  /-- Whether a cancellation reaches the task at its next turn. -/
  mustCancel : Bool
  /-- What is put into the queue when the task ends. -/
  watchers : List Job
  result : Option Result

def Task.ended (t : Task) : Bool := t.wait = .ended

/-- What comes of cancelling a task. -/
inductive Reach
  /-- It had ended. -/
  | missed
  /-- It is cancelled now, or will be when it next waits. -/
  | reached
  /-- The tasks it waits for wait for it in turn, so that cancelling it never comes to an end. -/
  | endless
  deriving DecidableEq, Repr

/-- What comes of cancelling several tasks, of which some have been cancelled and others not. -/
def Reach.join : Reach → Reach → Reach
  | .missed, r | r, .missed => r
  | .endless, _ | _, .endless => .endless
  | .reached, .reached => .reached

/-- Tasks that are awaited together. -/
structure Group where
  members : List TaskId
  missing : Nat
  waiter : TaskId
  cancelRequested : Bool
  deriving DecidableEq, Repr

/-- Alarms are kept in the order in which they were set. -/
structure Alarm where
  due : Nat
  task : TaskId
  deriving DecidableEq, Repr

inductive ProcessState
  | alive
  | exited
  | killed
  deriving DecidableEq, Repr

structure Process where
  child : Child
  source : String
  owner : TaskId
  state : ProcessState
  deriving DecidableEq, Repr

/-- How a connection stands: sends arrive; the next send will fail; a send has failed; the
conversation is over. -/
inductive Link
  | sound
  | broken
  | lost
  | over
  deriving DecidableEq, Repr

inductive Incoming
  | text (data : String)
  | bye
  deriving DecidableEq, Repr

structure Connection where
  link : Link
  inbox : List Incoming
  sends : Nat
  /-- How long each send takes, if it takes any time. -/
  pace : Nat → Option Nat

end InkPreview.Live
