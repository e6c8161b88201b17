import InkPreview.Live.World
/-!
Turns. Runnable tasks take turns first come, first served; a task that waits is woken by an alarm,
by the release of a lock, by a message, by the end of a group, or by its cancellation. The clock
moves only when nothing is runnable.
-/
namespace InkPreview.Live.World

def enqueue (w : World) (j : Job) : World := { w with queue := w.queue ++ [j] }

/-- The task gets its turn and will be moved by the signal. -/
def wake (w : World) (t : TaskId) (s : Signal) : World :=
  let w := w.modifyTask t fun k => { k with wait := .turn, signal := s }
  { w with alarms := w.alarms.filter (·.task != t) }.enqueue (.resume t)

/-- A new task, which begins its operation when its turn comes. -/
def spawn (w : World) (op : Op) (watchers : TaskId → List Job) : TaskId × World :=
  let t := w.tasks.length
  let k : Task := ⟨[], .start op, .turn, false, watchers t, none⟩
  (t, { w with tasks := w.tasks ++ [k] }.enqueue (.resume t))

/-! ### Cancelling -/

/-- A waiting task stops waiting and is cancelled at its turn. -/
def detach (w : World) (t : TaskId) (wait : Wait) : World :=
  let w := match wait with
    | .lock s => w.modifySlot s fun k => { k with lock := k.lock.mark t .cancelled }
    | _ => w
  w.wake t .cancelled

def setCancel (w : World) (t : TaskId) : World := w.modifyTask t fun k => { k with mustCancel := true }

/-- The tasks that are awaited in a group. -/
def membersOf (w : World) (g : GroupId) : List TaskId := (w.groups[g]?.map (·.members)).getD []

/-- The group ends in a cancellation once all its members have ended. -/
def requestCancel (w : World) (g : GroupId) : World :=
  { w with groups := w.groups.modify g fun h => { h with cancelRequested := true } }

/-- Cancels tasks one after the other, up to one whose cancelling has no end. -/
def cancelEach (cancel : TaskId → World → Reach × World) : List TaskId → World → Reach × World
  | [], w => (.missed, w)
  | t :: rest, w =>
    let (r, w) := cancel t w
    if r = .endless then (r, w)
    else
      let (r', w) := cancelEach cancel rest w
      (r.join r', w)

/-- Cancels a task, and through a group the tasks it waits for. The trail are the tasks that are
being cancelled already, each of which waits for the next: coming back to one of them, it would go
round until the calls are nested too deep. The fuel bounds the trail; no task is on it twice, so the
number of tasks is enough. -/
def cancelWith : Nat → List TaskId → TaskId → World → Reach × World
  | 0, _, _, w => (.endless, w)
  | fuel + 1, trail, t, w =>
    match w.tasks[t]? with
    | none => (.missed, w)
    | some k =>
      match k.wait with
      | .ended => (.missed, w)
      | .turn | .running => (.reached, w.setCancel t)
      | .alarm | .lock _ | .message _ | .follower _ => (.reached, w.detach t k.wait)
      | .group g =>
        if trail.contains t then (.endless, w)
        else
          match cancelEach (cancelWith fuel (t :: trail)) (w.membersOf g) w with
          | (.missed, w) => (.reached, w.setCancel t)
          | (.reached, w) => (.reached, w.requestCancel g)
          | (.endless, w) => (.endless, w)

/-- Cancels a task, with what comes of it. -/
def cancelling (w : World) (t : TaskId) : Reach × World := cancelWith (w.tasks.length + 1) [] t w

def cancel (w : World) (t : TaskId) : World := (w.cancelling t).2

/-- Cancels tasks, with what comes of it. -/
def cancellingAll (w : World) (ts : List TaskId) : Reach × World := cancelEach (fun t w => w.cancelling t) ts w

def cancelAll (w : World) (ts : List TaskId) : World := (w.cancellingAll ts).2

/-! ### Waiting -/

/-- The running task gives up the turn and waits with these frames. -/
def yield (w : World) (t : TaskId) (frames : List Frame) (wait : Wait) : World :=
  { w.modifyTask t fun k => { k with frames, wait, signal := .value .unit } with current := none }

def clearCancel (w : World) (t : TaskId) : World :=
  w.modifyTask t fun k => { k with mustCancel := false }

/-- The running task stops to wait. A cancellation that was asked of it while it ran reaches it
now, unless that has no end: then it stays asked for, and the task waits on. -/
def park (w : World) (t : TaskId) (frames : List Frame) (wait : Wait) : World :=
  let mustCancel := (w.tasks[t]?.map (·.mustCancel)).getD false
  if !mustCancel || wait = .turn then w.yield t frames wait
  else
    match ((w.yield t frames wait).clearCancel t).cancelling t with
    | (.endless, w) => w.setCancel t
    | (_, w) => w

def setAlarm (w : World) (t : TaskId) (micros : Nat) : World :=
  { w with alarms := w.alarms ++ [⟨w.clock + micros, t⟩] }

/-- Waits for a time. No time at all is one turn. -/
def sleep (w : World) (t : TaskId) (frames : List Frame) (micros : Int) : World :=
  if micros ≤ 0 then (w.park t frames .turn).enqueue (.resume t)
  else (w.setAlarm t micros.toNat).park t frames .alarm

/-- Something to do when the task ends. -/
def watch (w : World) (t : TaskId) (j : Job) : World :=
  w.modifyTask t fun k => { k with watchers := k.watchers ++ [j] }

/-- Has a job queued when a task ends, which is at once for a task that has ended. -/
def watchOrQueue (w : World) (t : TaskId) (j : Job) : World :=
  if w.hasEnded t then w.enqueue j else w.watch t j

/-- Waits until all the tasks have ended. That one has ended already is learned like any other
end. -/
def gather (w : World) (t : TaskId) (frames : List Frame) (members : List TaskId) : World :=
  if members.isEmpty then w.ret t frames .unit
  else
    let g := w.groups.length
    let group : Group := ⟨members, members.length, t, false⟩
    let w : World := { w with groups := w.groups ++ [group] }
    let w := members.foldl (fun w m => w.watchOrQueue m (.joined g)) w
    w.park t frames (.group g)

/-- What a task comes to. A cancellation that did not reach it before it ended well still counts. -/
def resultAsked (asked : Bool) : Result → Result
  | .value v => if asked then .cancelled else .value v
  | r => r

/-- The running task has ended. -/
def finish (w : World) (t : TaskId) (r : Result) : World :=
  let asked := (w.tasks[t]?.map (·.mustCancel)).getD false
  let watchers := (w.tasks[t]?.map (·.watchers)).getD []
  let result := resultAsked asked r
  let w := w.modifyTask t fun k =>
    { k with frames := [], wait := .ended, mustCancel := false, result := some result }
  watchers.foldl enqueue { w with current := none }

/-! ### Locks -/

/-- Calls the first in the queue unless it has been called. -/
def callNext (w : World) (s : SlotId) : World :=
  match w.slots[s]?.bind (·.lock.next?) with
  | some t =>
    (w.modifySlot s fun k => { k with lock := k.lock.mark t .called }).wake t (.value .unit)
  | none => w

def setHeld (w : World) (s : SlotId) (held : Bool) : World :=
  w.modifySlot s fun k => { k with lock := { k.lock with held } }

def release (w : World) (s : SlotId) : World := (w.setHeld s false).callNext s

def leaveQueue (w : World) (s : SlotId) (t : TaskId) : World :=
  w.modifySlot s fun k => { k with lock := k.lock.leave t }

/-! ### Jobs and alarms -/

def resume (w : World) (t : TaskId) : World :=
  match w.tasks[t]? with
  | some k =>
    if k.wait = .turn then
      let s := if k.mustCancel then .cancelled else k.signal
      let w := w.modifyTask t fun k => { k with wait := .running, mustCancel := false }
      w.go t k.frames s
    else w
  | none => w

/-- The last member of a group to end wakes the task that waits for the group. -/
def join (w : World) (g : GroupId) : World :=
  let w := { w with groups := w.groups.modify g fun h => { h with missing := h.missing - 1 } }
  match w.groups[g]? with
  | some h =>
    let waits := (w.tasks[h.waiter]?.map fun k => decide (k.wait = .group g)).getD false
    if h.missing = 0 && waits then
      w.wake h.waiter (if h.cancelRequested then .cancelled else .value .unit)
    else w
  | none => w

/-- Wakes a task that waits for the end of another, unless it has gone on for another reason. -/
def learn (w : World) (t follower : TaskId) : World :=
  let waits := (w.tasks[t]?.map fun k => decide (k.wait = .follower follower)).getD false
  if waits then w.wake t (.value .unit) else w

def perform (w : World) : Job → World
  | .resume t => w.resume t
  | .forget s t => w.modifySlot s fun k => { k with tasks := k.tasks.filter (· != t) }
  | .joined g => w.join g
  | .report t follower => w.learn t follower

/-- Rings an alarm, unless its task has been woken by an earlier one. -/
def ring (w : World) (a : Alarm) : World :=
  if w.alarms.contains a then w.wake a.task (.value .unit) else w

/-- The time of the next alarm. -/
def nextAlarm? (w : World) : Option Nat := (w.alarms.map (·.due)).min?

/-- The first alarm of a task, if it is due. -/
def dueAlarm? (w : World) (t : TaskId) : Option Alarm :=
  (w.alarms.find? (·.task == t)).filter (·.due ≤ w.clock)

/-- Rings the alarm of a task if it is due. -/
def ringTask (w : World) (t : TaskId) : World :=
  match w.dueAlarm? t with
  | some a => w.ring a
  | none => w

/-- Moves the clock to the next alarm and rings all alarms that are due. -/
def jump (w : World) : World :=
  match w.nextAlarm? with
  | none => w
  | some due =>
    let w := { w with clock := max w.clock due }
    (w.alarms.filter (·.due ≤ w.clock)).foldl ring w

end InkPreview.Live.World
