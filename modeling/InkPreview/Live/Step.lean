import InkPreview.Live.Clients
import InkPreview.Live.Closing
import InkPreview.Live.Compiling
import InkPreview.Live.Exporting
import InkPreview.Live.Messages
import InkPreview.Live.Requests
/-!
One step of the running task, and one step of the whole. No step looks further than to the next
operation, value or wait, so operations may begin each other without end and every step still ends.
-/
namespace InkPreview.Live.World

/-- Starts operations side by side and waits for all of them. -/
def beginTogether (w : World) (t : TaskId) (frames : List Frame) (ops : List Op) : World :=
  let (ts, w) := ops.foldl
    (fun (acc : List TaskId × World) op =>
      let (b, w) := acc.2.spawn op fun _ => []
      (acc.1 ++ [b], w))
    ([], w)
  w.gather t (.collecting ts :: frames) ts

/-- Begins an operation. -/
def begin (w : World) (t : TaskId) (frames : List Frame) : Op → World
  | .edit doc text => w.beginEdit t frames doc text
  | .close doc => w.beginClose t frames doc
  | .waitIdle doc => w.beginWaitIdle t frames doc
  | .closeAll => w.closeNext t frames w.openDocs
  | .stop => w.call t (.stopping :: frames) .closeAll
  | .compile text => w.beginCompile t frames text
  | .exportAs doc text kind title => w.beginExport t frames doc text kind title
  | .handle c data => w.beginHandle t frames c data
  | .converse c => w.beginConversation t frames c
  | .send c m => w.beginSend t frames c m
  | .request r => w.beginRequest t frames r
  | .sleep micros => w.sleep t frames micros
  | .together ops => w.beginTogether t frames ops
  | .reportedEdit doc text => w.call t (.reporting :: frames) (.edit doc text)
  | .background r => w.sleep t (.quiet r :: frames) w.setup.quiet
  | .follow p => w.beginFollow t frames p

/-- The results of tasks that have ended, in order. -/
def collect (w : World) (ts : List TaskId) : Value :=
  .several (ts.filterMap fun t =>
    match w.tasks[t]?.bind Task.result with
    | some (.value v) => some v
    | _ => none)

/-- The operation above a frame has ended with a value. -/
def proceed (w : World) (t : TaskId) (frames : List Frame) (v : Value) : Frame → World
  | .issued g => w.ret t frames (.generation g)
  | .notifying u rest => w.tellNext t frames u rest
  | .acting i u rest => w.act t frames i u rest
  | .broadcasting m _ rest => w.broadcastNext t frames m rest
  | .quiet r => w.quietEnded t frames r
  | .queueing r => w.called t frames r
  | .holding r => w.compiled t frames r v
  | .running p => w.readOutcome t frames p
  | .limited p follower => w.limitedWaitOver t frames p follower .timedOut
  | .stoppingFollower p why => w.kill t frames p why
  | .following p => w.processExited t frames p
  | .reaping p why => (w.emit (.reaped w.clock p)).reaped t frames why
  | .closing doc n => w.closed t frames doc n
  | .idling s => w.awaitIdle t frames s
  | .closingAll rest => w.closeNext t frames rest
  | .stopping => (w.note .componentsStopped).ret t frames .unit
  | .exporting doc kind title => w.exportCompiled t frames doc kind title v
  | .acknowledging c doc =>
    match v with
    | .generation g => w.call t frames (.send c (.editAck doc g))
    | v => w.ret t frames v
  | .confirming c doc => w.call t frames (.send c (.closeResult doc))
  | .serving c => w.receive t frames c
  | .receiving c => w.received t frames c
  | .sending c m => w.transmit t frames c m
  | .collecting ts => w.ret t frames (w.collect ts)
  | .reporting =>
    match v with
    | .generation g => (w.emit (.editDone w.clock g)).ret t frames v
    | v => w.ret t frames v
  | .answeringEdit doc title => w.editAnswered t frames doc title v
  | .answeringExport => w.exportAnswered t frames v
  | .answering => w.ret t frames v

/-- The operation above a frame has ended in a fault. -/
def recover (w : World) (t : TaskId) (frames : List Frame) (f : Fault) : Frame → World
  | .notifying u rest => w.subscriberFailed t frames u rest f
  | .broadcasting m c rest => w.sendFailed t frames m c rest f
  | .holding r => w.compileCrashed t frames r f
  | .serving c => w.handlingFailed t frames c f
  | .answeringExport => w.exportRefused t frames f
  | .answering => w.respond t frames (.crashed f)
  | _ => w.fail t frames f

/-- A cancellation reaches a frame. The quiet time ends on it as if nothing were the matter, and a
process under a limit that has just ended outlives it. -/
def abort (w : World) (t : TaskId) (frames : List Frame) : Frame → World
  | .quiet r => (w.note (.abandoned r.doc r.generation)).ret t frames .unit
  | .queueing r => w.leftQueue t frames r
  | .holding r => (w.release r.slot).unwind t frames
  | .running p | .stoppingFollower p _ => w.kill t frames p .cancelled
  | .limited p follower => w.limitedWaitOver t frames p follower .cancelled
  | .serving c | .receiving c => (w.setLink c .over).unwind t frames
  | _ => w.unwind t frames

/-- One step of the running task. -/
def move (w : World) (t : TaskId) (frames : List Frame) : Signal → World
  | .start op => w.begin t frames op
  | .value v =>
    match frames with
    | [] => w.finish t (.value v)
    | f :: rest => w.proceed t rest v f
  | .fault e =>
    match frames with
    | [] => w.finish t (.fault e)
    | f :: rest => w.recover t rest e f
  | .cancelled =>
    match frames with
    | [] => w.finish t .cancelled
    | f :: rest => w.abort t rest f

/-- One step: of the running task if there is one, otherwise of the first job in the queue. With
nothing runnable nothing happens. -/
def tick (w : World) : World :=
  match w.current with
  | some (t, frames, s) => w.move t frames s
  | none =>
    match w.queue with
    | [] => w
    | j :: rest => { w with queue := rest }.perform j

def isQuiescent (w : World) : Bool := w.current.isNone && w.queue.isEmpty

end InkPreview.Live.World
