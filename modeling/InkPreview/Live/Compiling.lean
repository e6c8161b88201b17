import InkPreview.Live.Delivery
/-!
Compiling in the background. A request waits for quiet, then for the lock of its slot, and checks
after each wait, and once more when the compiler has ended, whether its edit still counts. One
compiler runs for a slot at a time; a run that is out of date is left to end and its result dropped.
-/
namespace InkPreview.Live.World

/-! ### Running the compiler -/

/-- Counts a run by what it came to. -/
def conclude (w : World) (t : TaskId) (frames : List Frame) (o : Outcome) : World :=
  let w := match o with
    | .success _ => w.count "compile.succeeded"
    | .failed k _ => w.countBy "compile.failed" "kind" k.name
  w.ret t frames (.outcome o)

def noteRun (w : World) : Option RunNote → World
  | none => w
  | some (.exited c) => w.note (.compilerExited c)
  | some (.unreadable r) => w.note (.outputUnreadable r)
  | some .blank => w.note .outputBlank

def setProcess (w : World) (p : ProcessId) (s : ProcessState) : World :=
  { w with processes := w.processes.modify p fun k => { k with state := s } }

/-- The process has ended by itself. -/
def processExited (w : World) (t : TaskId) (frames : List Frame) (p : ProcessId) : World :=
  match w.processes[p]? with
  | some k =>
    ((w.setProcess p .exited).emit (.exited w.clock p k.child.exitCode)).ret t frames .unit
  | none => w.ret t frames .unit

/-- Waits with a process until it ends. One that takes no time has ended at once. -/
def beginFollow (w : World) (t : TaskId) (frames : List Frame) (p : ProcessId) : World :=
  match w.processes[p]? with
  | some k =>
    if k.child.runTime = 0 then w.processExited t frames p
    else w.sleep t (.following p :: frames) k.child.runTime
  | none => w.ret t frames .unit

/-- Reads what an ended process has left. A process that never was has failed. -/
def readOutcome (w : World) (t : TaskId) (frames : List Frame) (p : ProcessId) : World :=
  match w.processes[p]? with
  | some k =>
    let (o, n) := k.child.outcome
    (w.noteRun n).conclude t frames o
  | none => w.conclude t frames (.failed .processError unknownErrorMessage)

/-- The killed process is gone. -/
def reaped (w : World) (t : TaskId) (frames : List Frame) : KillReason → World
  | .timedOut =>
    (w.note (.timedOut w.setup.limit)).conclude t frames
      (.failed .processError (timedOutMessage w.setup.limit))
  | .cancelled => (w.note .compileCancelled).unwind t frames

/-- Kills the process and waits until it is gone. -/
def kill (w : World) (t : TaskId) (frames : List Frame) (p : ProcessId) (why : KillReason) : World :=
  match w.processes[p]? with
  | some k =>
    let w := (w.setProcess p .killed).emit (.killed w.clock p)
    if k.child.gone then w.reaped t frames why
    else
      match k.child.reapTime with
      | none => (w.emit (.reaped w.clock p)).reaped t frames why
      | some d => w.sleep t (.reaping p why :: frames) d
  | none => w.reaped t frames why

/-- Cancels the task that follows a process and waits until it has ended. Nothing else waits for
that task any more. -/
def stopFollower (w : World) (t : TaskId) (frames : List Frame) (p : ProcessId) (follower : TaskId)
    (why : KillReason) : World :=
  let w := w.modifyTask follower fun k => { k with watchers := [.report t follower] }
  (w.cancel follower).park t (.stoppingFollower p why :: frames) (.follower follower)

/-- The wait for a process with a limit is over. A process that has ended by now counts as ended,
whatever the wait was ended by, unless a cancellation is heeded even so: then there is nothing left to
kill. If the task that followed the process was cancelled instead, nobody knows when it will end, and
it is killed. -/
def limitedWaitOver (w : World) (t : TaskId) (frames : List Frame) (p : ProcessId)
    (follower : TaskId) (why : KillReason) : World :=
  if w.hasEnded follower then
    if w.wasCancelled follower then w.kill t frames p .cancelled
    else if w.setup.heedsLate && why = .cancelled then w.reaped t frames .cancelled
    else w.readOutcome t frames p
  else w.stopFollower t frames p follower why

/-- Waits for a process that has just been started. Under a limit it is followed by a task of its
own; a limit below zero is over before that task gets to run. -/
def awaitProcess (w : World) (t : TaskId) (frames : List Frame) (p : ProcessId) : World :=
  let limit := w.setup.limit
  if limit.isZero then w.call t (.running p :: frames) (.follow p)
  else
    let (follower, w) := w.spawn (.follow p) fun f => [.report t f]
    if limit.isNegative then w.stopFollower t frames p follower .timedOut
    else
      (w.setAlarm t limit.millionths.toNat).park t (.limited p follower :: frames)
        (.follower follower)

/-- Starts the compiler on a source. -/
def invoke (w : World) (t : TaskId) (frames : List Frame) (executable : Option String)
    (source : String) : World :=
  match executable with
  | none => w.ret t frames (.outcome (.failed .toolMissing toolMissingMessage))
  | some exe =>
    let w := w.count "compile.started"
    let c := w.setup.child source
    match c.writeFault with
    | some (.refused m) => w.ret t frames (.outcome (.failed .ioError (writeFailedMessage m)))
    | some (.crashed name m) => w.fail t frames (.setup name m)
    | none =>
      match c.startFault with
      | some (.refused m) => (w.note (.startRefused exe m)).conclude t frames (.failed .processError m)
      | some (.crashed name m) => w.fail t frames (.setup name m)
      | none =>
        let p := w.processes.length
        let k : Process := ⟨c, source, t, .alive⟩
        let w : World := { w with processes := w.processes ++ [k] }
        (w.emit (.spawned w.clock p exe source)).awaitProcess t frames p

/-- Looks for a compiler and starts it. -/
def beginCompile (w : World) (t : TaskId) (frames : List Frame) (source : String) : World :=
  let w := w.noteAll w.finder.notes
  match w.finder.answer with
  | .error f => w.fail t frames f
  | .ok exe => w.invoke t frames exe source

/-! ### Requests -/

/-- The lock is held. An edit that came while the request waited for it ends the request. -/
def locked (w : World) (t : TaskId) (frames : List Frame) (r : Request) : World :=
  if !w.isCurrent r.slot r.generation then
    ((w.note (.superseded r.doc r.generation)).release r.slot).ret t frames .unit
  else w.call t (.holding r :: frames) (.compile r.text)

/-- Takes the lock or joins its queue. -/
def acquire (w : World) (t : TaskId) (frames : List Frame) (r : Request) : World :=
  if (w.slots[r.slot]?.map (·.lock.isOpen)).getD false then (w.setHeld r.slot true).locked t frames r
  else
    let join (k : Slot) : Slot := { k with lock := { k.lock with queue := k.lock.queue ++ [(t, .waiting)] } }
    (w.modifySlot r.slot join).park t (.queueing r :: frames) (.lock r.slot)

/-- The quiet time is over. -/
def quietEnded (w : World) (t : TaskId) (frames : List Frame) (r : Request) : World :=
  let forget (k : Slot) : Slot := if k.pending = some t then { k with pending := none } else k
  let w := w.modifySlot r.slot forget
  if w.isCurrent r.slot r.generation then w.acquire t frames r else w.ret t frames .unit

/-- The request has been called in the queue of the lock. -/
def called (w : World) (t : TaskId) (frames : List Frame) (r : Request) : World :=
  ((w.leaveQueue r.slot t).setHeld r.slot true).locked t frames r

/-- The request was cancelled in the queue of the lock. If the lock is free, the next one is
called. -/
def leftQueue (w : World) (t : TaskId) (frames : List Frame) (r : Request) : World :=
  let w := w.leaveQueue r.slot t
  let held := (w.slots[r.slot]?.map (·.lock.held)).getD false
  (if held then w else w.callNext r.slot).unwind t frames

/-- What the compiler came to is delivered, unless the edit is out of date. -/
def settle (w : World) (t : TaskId) (frames : List Frame) (r : Request) (o : Outcome) : World :=
  if !w.isCurrent r.slot r.generation then
    ((w.count "compile.stale_dropped").note
      (.dropped r.doc r.generation (w.generationOf r.slot))).ret t frames .unit
  else
    match o with
    | .success story => w.deliver t frames r.slot r.doc r.generation (.compiled story)
    | .failed k m =>
      (w.note (.failed r.doc r.generation k)).deliver t frames r.slot r.doc r.generation
        (.compilerError m)

/-- The compiler under the lock has ended; anything else than an outcome cannot come back. -/
def compiled (w : World) (t : TaskId) (frames : List Frame) (r : Request) (v : Value) : World :=
  match v with
  | .outcome o => (w.release r.slot).settle t frames r o
  | _ => (w.release r.slot).ret t frames .unit

/-- A compile that went wrong shows as a failed one. -/
def compileCrashed (w : World) (t : TaskId) (frames : List Frame) (r : Request) (f : Fault) : World :=
  ((w.note (.crashed r.doc f.message)).release r.slot).settle t frames r (.failed .processError f.message)

end InkPreview.Live.World
