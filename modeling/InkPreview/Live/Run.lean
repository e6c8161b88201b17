import InkPreview.Live.Step
/-!
Runs. Something from outside may happen between any two steps; `Reachable` collects the states that
come about in this way. `finishOp` and `runReady` are the runs in which one operation is carried to
its end, and in which everything that can run now does.
-/
namespace InkPreview.Live

/-- What can happen to a running editor. -/
inductive Input
  /-- One step. -/
  | tick
  /-- With nothing runnable, time passes until the next alarm. -/
  | jump
  /-- Time passes, whatever is going on. -/
  | pass (micros : Nat)
  /-- The alarm of a task rings, if it is due. Alarms that are due may ring in any order. -/
  | ring (t : TaskId)
  /-- A new operation takes the turn; only between the turns of other tasks. -/
  | begin (op : Op)
  /-- A new operation queues up for its turn. -/
  | queue (op : Op)
  | cancel (t : TaskId)
  | subscribe (s : Subscriber)
  | find (f : Finder)
  /-- From now on the compiler behaves like this. -/
  | compiler (child : String → Child)
  | connect (pace : Nat → Option Nat)
  | welcome (c : ClientId) (path : String)
  | arrive (c : ClientId) (i : Incoming)
  | breakLink (c : ClientId)
  | enableMetrics (enabled : Bool)
  | setTime (now : Int)

namespace World

/-- A new task that runs at once. -/
def launch (w : World) (op : Op) : TaskId × World :=
  let t := w.tasks.length
  let k : Task := ⟨[], .start op, .running, false, [], none⟩
  (t, { w with tasks := w.tasks ++ [k], current := some (t, [], .start op) })

def subscribe (w : World) (s : Subscriber) : World :=
  { w with subscribers := w.subscribers ++ [s], calls := w.calls ++ [0] }

def apply (w : World) : Input → World
  | .tick => w.tick
  | .jump => if w.isQuiescent then w.jump else w
  | .pass micros => { w with clock := w.clock + micros }
  | .ring t => w.ringTask t
  | .begin op => if w.current.isNone then (w.launch op).2 else w
  | .queue op => (w.spawn op fun _ => []).2
  | .cancel t => if w.current.isNone then w.cancel t else w
  | .subscribe s => w.subscribe s
  | .find f => { w with finder := f }
  | .compiler child => { w with setup := { w.setup with child } }
  | .connect pace => (w.connect pace).2
  | .welcome c path => w.welcome c path
  | .arrive c i => w.arrive c i
  | .breakLink c => w.breakLink c
  | .enableMetrics enabled => { w with metrics := { w.metrics with enabled } }
  | .setTime now => { w with library := { w.library with now } }

def run (w : World) (inputs : List Input) : World := inputs.foldl apply w

/-- The states that come about from a start by some inputs. -/
def Reachable (start w : World) : Prop := ∃ inputs, start.run inputs = w

/-- Runs everything that can run without time passing. -/
def runReady : Nat → World → World
  | 0, w => w
  | fuel + 1, w => if w.isQuiescent then w else runReady fuel w.tick

def resultOf (w : World) (t : TaskId) : Option Result := w.tasks[t]?.bind (·.result)

/-- Runs until a task has ended, letting time pass whenever nothing is runnable. -/
def finishTask : Nat → TaskId → World → World
  | 0, _, w => w
  | fuel + 1, t, w =>
    if (w.resultOf t).isSome then w
    else if w.isQuiescent then
      if w.alarms.isEmpty then w else finishTask fuel t w.jump
    else finishTask fuel t w.tick

/-- Carries an operation to its end. -/
def finishOp (fuel : Nat) (w : World) (op : Op) : Option Result × World :=
  let (t, w) := w.launch op
  let w := finishTask fuel t w
  (w.resultOf t, w)

theorem run_append (w : World) (xs ys : List Input) : w.run (xs ++ ys) = (w.run xs).run ys := by
  simp [run]

theorem Reachable.refl (w : World) : Reachable w w := ⟨[], rfl⟩

theorem Reachable.apply {start w : World} (h : Reachable start w) (i : Input) :
    Reachable start (w.apply i) := by
  obtain ⟨inputs, rfl⟩ := h
  exact ⟨inputs ++ [i], by simp [run]⟩

end World
end InkPreview.Live
