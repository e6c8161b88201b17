import InkPreview.Proofs.Live.Compilation
import InkPreview.Proofs.Live.Gauge
import Mathlib.Data.List.Nodup
/-!
What is counted. `scores` reads off a state which counters its next step adds one to; nothing else
touches these counters. Main statements: `Sane.apply_scored` for one step and `run_scored` for a run.
-/
namespace InkPreview

open Decimal (Number)

/-- The counters of edits, of compiles and of subscribers. -/
inductive Counter
  | started
  | succeeded
  | failed (kind : Failure)
  | abandoned
  | dropped
  | errors
  deriving DecidableEq, Repr

namespace Counter

def name : Counter → String
  | started => "compile.started"
  | succeeded => "compile.succeeded"
  | failed _ => "compile.failed"
  | abandoned => "debounce.abandoned"
  | dropped => "compile.stale_dropped"
  | errors => "callback.errors"

def labels : Counter → Labels
  | failed k => [("kind", k.name)]
  | _ => []

/-- The text the counter is filed under. -/
def key (c : Counter) : String := Metrics.key c.name c.labels

def all : List Counter := [started, succeeded, abandoned, dropped, errors] ++ Failure.all.map failed

theorem mem_all (c : Counter) : c ∈ all := by
  cases c with
  | failed k => cases k <;> decide
  | started | succeeded | abandoned | dropped | errors => decide

theorem key_injective : Function.Injective key := fun c d same =>
  List.inj_on_of_nodup_map (by decide : (all.map key).Nodup) (mem_all c) (mem_all d) same

/-- Exports and pages are filed elsewhere. -/
def Elsewhere (k : String) : Prop := ∀ c ∈ all, c.key ≠ k

theorem elsewhere_export (k : ExportKind) : Elsewhere (Metrics.key "export.ok" [("kind", k.name)]) := by
  cases k <;> unfold Elsewhere <;> decide

theorem elsewhere_failedExport (k : ExportKind) :
    Elsewhere (Metrics.key "export.failed" [("kind", k.name)]) := by
  cases k <;> unfold Elsewhere <;> decide

theorem elsewhere_reused : Elsewhere (Metrics.key "render.reused" []) := by
  unfold Elsewhere
  decide

theorem elsewhere_built (k : Kind) : Elsewhere (Metrics.key "render.built" [("mode", k.name)]) := by
  cases k <;> unfold Elsewhere <;> decide

end Counter

/-- The counter that a finished compile adds to. -/
def Outcome.counter : Outcome → Counter
  | .success _ => .succeeded
  | .failed k _ => .failed k

namespace Metrics

/-- A counter shows this many. -/
def Reads (m : Metrics) (c : Counter) (n : Nat) : Prop := m.counter c.name c.labels = .whole n

/-- From the one to the other each counter has gone up by its number in the list, as long as
measurements are taken. -/
structure Scores (m n : Metrics) (cs : List Counter) : Prop where
  enabled : n.enabled = m.enabled
  reads : ∀ c x, m.Reads c x → n.Reads c (x + if m.enabled then cs.count c else 0)

namespace Scores
variable {m n k : Metrics} {cs ds : List Counter}

theorem of_counters (enabled : n.enabled = m.enabled) (counters : n.counters = m.counters) : m.Scores n [] := by
  refine ⟨enabled, fun c x reads => ?_⟩
  simpa [Reads, counter, counters] using reads

theorem refl (m : Metrics) : m.Scores m [] := .of_counters rfl rfl

theorem trans (h : m.Scores n cs) (h' : n.Scores k ds) : m.Scores k (cs ++ ds) := by
  refine ⟨h'.enabled.trans h.enabled, fun c x reads => ?_⟩
  have now := h'.reads c _ (h.reads c x reads)
  rw [h.enabled] at now
  cases enabled : m.enabled with
  | true => simpa [enabled, List.count_append, Nat.add_assoc] using now
  | false => simpa [enabled] using now

/-- Counting under a key of another kind shows nowhere here. -/
theorem elsewhere (m : Metrics) {name : String} {labels : Labels} (other : Counter.Elsewhere (key name labels)) :
    m.Scores (m.inc name labels (.whole 1)) [] := by
  unfold inc
  split
  · refine ⟨rfl, fun c x reads => ?_⟩
    have apart : c.key ≠ key name labels := other c c.mem_all
    have kept : (upsert (.whole 0) (·.add (.whole 1)) (key name labels) m.counters).lookup c.key =
        m.counters.lookup c.key := lookup_upsert_other _ _ apart _
    have shown : (m.counters.lookup c.key).getD (.whole 0) = .whole x := reads
    rw [← kept] at shown
    simpa [Reads, counter, Counter.key] using shown
  · exact refl m

theorem one (m : Metrics) (c : Counter) : m.Scores (m.inc c.name c.labels (.whole 1)) [c] := by
  unfold inc
  split
  · rename_i enabled
    refine ⟨rfl, fun d x reads => ?_⟩
    by_cases same : d = c
    · obtain rfl := same
      have raised : (upsert (.whole 0) (·.add (.whole 1)) d.key m.counters).lookup d.key =
          some (((m.counters.lookup d.key).getD (.whole 0)).add (.whole 1)) := lookup_upsert_self _ _ _ _
      have shown : (m.counters.lookup d.key).getD (.whole 0) = .whole x := reads
      rw [shown] at raised
      have read := congrArg (·.getD (Number.whole 0)) raised
      simpa [Reads, counter, enabled, Number.add, Counter.key] using read
    · have apart : d.key ≠ c.key := fun eq => same (Counter.key_injective eq)
      have kept : (upsert (.whole 0) (·.add (.whole 1)) c.key m.counters).lookup d.key =
          m.counters.lookup d.key := lookup_upsert_other _ _ apart _
      have none : [c].count d = 0 := by simp [Ne.symm same]
      have shown : (m.counters.lookup d.key).getD (.whole 0) = .whole x := reads
      rw [← kept] at shown
      simpa [Reads, counter, enabled, none, Counter.key] using shown
  · rename_i off
    exact ⟨rfl, fun d x reads => by simpa [off] using reads⟩

end Scores
end Metrics

/-- The frame of a compiler that has been started. -/
def Live.Frame.runs (f : Live.Frame) : Bool := f.child?.isSome

namespace Live.World
variable {w v x : World} {t : TaskId} {fs : List Frame} {s : Signal} {cs ds : List Counter} {i : Input}

/-! ### What a step adds to -/

/-- The counter of the outcome that the running task goes on with. -/
def concluded (w : World) : List Counter :=
  match w.current with
  | some (_, _, .value (.outcome o)) => [o.counter]
  | _ => []

/-- The task that waits for quiet on behalf of a document, unless it has ended. -/
def waiter? (w : World) (doc : DocId) : Option TaskId :=
  ((w.slotOf? doc).bind fun s => w.slots[s]?.bind (·.pending)).filter fun t => !w.hasEnded t

/-- What is counted as an operation begins: an edit that another one gives way to, and a compiler that is
started, with its outcome if that is known at once. A source that cannot be written is not counted as a
failure. -/
def scoresOf (w : World) : Op → List Counter
  | .edit doc _ => (w.waiter? doc).toList.map fun _ => .abandoned
  | .compile text =>
    match w.finder.answer with
    | .ok (some _) => .started :: if (w.setup.child text).writeFault.isSome then [] else w.tick.concluded
    | _ => []
  | _ => []

/-- What is counted as the operation above a frame has ended: an answer that comes too late, a subscriber
that has failed, and the outcome of a compiler. -/
def scoresAt (w : World) (s : Signal) : Frame → List Counter
  | .holding r =>
    match s with
    | .value (.outcome _) | .fault _ => if w.isCurrent r.slot r.generation then [] else [.dropped]
    | _ => []
  | .notifying _ _ =>
    match s with
    | .fault _ => [.errors]
    | _ => []
  | f => if f.runs then w.tick.concluded else []

/-- The counters that the next step adds one to. -/
def scores (w : World) : List Counter :=
  match w.current with
  | some (_, _, .start op) => w.scoresOf op
  | some (_, f :: _, s) => w.scoresAt s f
  | _ => []

/-- The counters that an input adds one to. -/
def scored (w : World) : Input → List Counter
  | .tick => w.scores
  | _ => []

def scoresAlong (w : World) : List Input → List Counter
  | [] => []
  | i :: rest => w.scored i ++ (w.apply i).scoresAlong rest

/-- From the one to the other each counter has gone up by its number in the list. -/
def Scored (w v : World) (cs : List Counter) : Prop := w.metrics.Scores v.metrics cs

theorem Scored.of_counters (enabled : v.metrics.enabled = w.metrics.enabled)
    (counters : v.metrics.counters = w.metrics.counters) : w.Scored v [] := Metrics.Scores.of_counters enabled counters

theorem Scored.still (h : v.metrics = w.metrics) : w.Scored v [] := .of_counters (by rw [h]) (by rw [h])

theorem Scored.trans (h : w.Scored v cs) (h' : v.Scored x ds) : w.Scored x (cs ++ ds) :=
  Metrics.Scores.trans h h'

/-- What follows without a change to any measurement. -/
theorem Scored.then (h : w.Scored v cs) (same : x.metrics = v.metrics) : w.Scored x cs := by
  unfold Scored
  rw [same]
  exact h

/-- What comes after something that is not measured. -/
theorem Scored.after (h : v.Scored x cs) (same : v.metrics = w.metrics) : w.Scored x cs := by
  unfold Scored
  rw [← same]
  exact h

/-! ### What is not measured -/

theorem metrics_park (w : World) (t : TaskId) (fs : List Frame) (wait : Wait) :
    (w.park t fs wait).metrics = w.metrics := metrics_land w t (.park fs wait)

theorem metrics_sleep (w : World) (t : TaskId) (fs : List Frame) (micros : Int) :
    (w.sleep t fs micros).metrics = w.metrics := by
  unfold sleep
  split
  · exact metrics_land w t (.turn fs)
  · exact metrics_land w t (.timed fs .alarm micros.toNat)

theorem metrics_gather (w : World) (t : TaskId) (fs : List Frame) (members : List TaskId) :
    (w.gather t fs members).metrics = w.metrics := by
  unfold gather
  split
  · rfl
  · obtain ⟨ks, js, eq, -⟩ := enroll_eq w t members
    exact (metrics_park (w.enroll t members) t fs _).trans (by rw [eq])

theorem metrics_cancel (w : World) (t : TaskId) : (w.cancel t).metrics = w.metrics := (cancel_nudges w t).metrics

theorem metrics_callNext (w : World) (y : SlotId) : (w.callNext y).metrics = w.metrics := by
  unfold callNext
  split <;> rfl

theorem metrics_release (w : World) (y : SlotId) : (w.release y).metrics = w.metrics := metrics_callNext _ y

theorem metrics_noteAll (w : World) (ns : List Note) : (w.noteAll ns).metrics = w.metrics := by
  induction ns generalizing w with
  | nil => rfl
  | cons n rest ih => exact ih (w.note n)

theorem metrics_noteRun (w : World) (n : Option RunNote) : (w.noteRun n).metrics = w.metrics := by
  rcases n with _ | _ | _ | _ <;> rfl

theorem metrics_act (w : World) (t : TaskId) (fs : List Frame) (j : Nat) (u : Update) (todo : List Action) :
    (w.act t fs j u todo).metrics = w.metrics := by
  induction todo generalizing w with
  | nil => rfl
  | cons a rest ih =>
    cases a with
    | wait micros => exact metrics_sleep w t _ micros
    | edit | close | ask | fail | skip => rfl
    | report => exact ih (w.emit (.slowDone w.clock j))

theorem metrics_tellNext (w : World) (t : TaskId) (fs : List Frame) (u : Update) (js : List Nat) :
    (w.tellNext t fs u js).metrics = w.metrics := by
  cases js with
  | nil => rfl
  | cons j rest =>
    simp only [tellNext]
    split
    · unfold tell
      dsimp only
      split
      · exact metrics_act _ t _ j u _
      · rfl
      · rfl
    · rfl

theorem metrics_awaitIdle (w : World) (t : TaskId) (fs : List Frame) (y : SlotId) :
    (w.awaitIdle t fs y).metrics = w.metrics := by
  unfold awaitIdle
  dsimp only
  split
  · rfl
  · exact metrics_gather w t _ _

theorem metrics_closeNext (w : World) (t : TaskId) (fs : List Frame) (docs : List DocId) :
    (w.closeNext t fs docs).metrics = w.metrics := by
  cases docs <;> rfl

theorem metrics_closed (w : World) (t : TaskId) (fs : List Frame) (doc : DocId) (n : Nat) :
    (w.closed t fs doc n).metrics = w.metrics := by
  cases doc <;> rfl

theorem metrics_broadcastNext (w : World) (t : TaskId) (fs : List Frame) (m : Web.Message) (cs : List ClientId) :
    (w.broadcastNext t fs m cs).metrics = w.metrics := by
  cases cs <;> rfl

theorem metrics_transmit (w : World) (t : TaskId) (fs : List Frame) (c : ClientId) (m : Web.Message) :
    (w.transmit t fs c m).metrics = w.metrics := by
  unfold transmit
  split
  · rfl
  · split <;> rfl

theorem metrics_beginSend (w : World) (t : TaskId) (fs : List Frame) (c : ClientId) (m : Web.Message) :
    (w.beginSend t fs c m).metrics = w.metrics := by
  unfold beginSend
  split
  · exact metrics_transmit w t fs c m
  · dsimp only
    split
    · exact metrics_transmit _ t fs c m
    · exact metrics_sleep _ t _ _

theorem metrics_receive (w : World) (t : TaskId) (fs : List Frame) (c : ClientId) :
    (w.receive t fs c).metrics = w.metrics := by
  unfold receive
  split
  · rfl
  · split
    · rfl
    · split
      · exact metrics_park w t _ _
      · dsimp only
        split <;> rfl

theorem metrics_received (w : World) (t : TaskId) (fs : List Frame) (c : ClientId) :
    (w.received t fs c).metrics = w.metrics := by
  unfold received
  split
  · rfl
  · rfl
  · exact metrics_park w t _ _

theorem metrics_beginRequest (w : World) (t : TaskId) (fs : List Frame) (r : Web.Request) :
    (w.beginRequest t fs r).metrics = w.metrics := by
  unfold beginRequest
  split
  · rfl
  · unfold takeRoute exportDocument
    repeat' split
    all_goals rfl

theorem metrics_spawnAll (w : World) (ops : List Op) (ts : List TaskId) :
    (ops.foldl (fun (acc : List TaskId × World) op =>
      let (b, w) := acc.2.spawn op fun _ => []
      (acc.1 ++ [b], w)) (ts, w)).2.metrics = w.metrics := by
  induction ops generalizing w ts with
  | nil => rfl
  | cons op rest ih => exact ih (w.spawn op fun _ => []).2 _

theorem metrics_processExited (w : World) (t : TaskId) (fs : List Frame) (p : ProcessId) :
    (w.processExited t fs p).metrics = w.metrics := by
  unfold processExited
  split <;> rfl

theorem metrics_beginFollow (w : World) (t : TaskId) (fs : List Frame) (p : ProcessId) :
    (w.beginFollow t fs p).metrics = w.metrics := by
  unfold beginFollow
  split
  · split
    · exact metrics_processExited w t fs p
    · exact metrics_sleep w t _ _
  · rfl

theorem metrics_stopFollower (w : World) (t : TaskId) (fs : List Frame) (p : ProcessId) (f : TaskId)
    (why : KillReason) : (w.stopFollower t fs p f why).metrics = w.metrics :=
  (metrics_park _ t _ _).trans (metrics_cancel _ f)

theorem metrics_awaitProcess (w : World) (t : TaskId) (fs : List Frame) (p : ProcessId) :
    (w.awaitProcess t fs p).metrics = w.metrics := by
  unfold awaitProcess
  dsimp only
  split
  · rfl
  · split
    · exact metrics_stopFollower _ t fs p _ _
    · exact metrics_park _ t _ _

theorem metrics_locked (w : World) (t : TaskId) (fs : List Frame) (r : Request) :
    (w.locked t fs r).metrics = w.metrics := by
  unfold locked
  split
  · exact metrics_release _ r.slot
  · rfl

theorem metrics_quietEnded (w : World) (t : TaskId) (fs : List Frame) (r : Request) :
    (w.quietEnded t fs r).metrics = w.metrics := by
  unfold quietEnded
  dsimp only
  split
  · unfold acquire
    dsimp only
    split
    · exact metrics_locked _ t fs r
    · exact metrics_park _ t _ _
  · rfl

theorem metrics_called (w : World) (t : TaskId) (fs : List Frame) (r : Request) :
    (w.called t fs r).metrics = w.metrics := metrics_locked _ t fs r

theorem metrics_leftQueue (w : World) (t : TaskId) (fs : List Frame) (r : Request) :
    (w.leftQueue t fs r).metrics = w.metrics := by
  unfold leftQueue
  dsimp only
  split
  · rfl
  · exact metrics_callNext _ r.slot

/-! ### Compilers -/

theorem concluded_idle (idle : v.current = none) : v.concluded = [] := by simp [concluded, idle]

theorem concluded_park (w : World) (t : TaskId) (fs : List Frame) (wait : Wait) : (w.park t fs wait).concluded = [] :=
  concluded_idle (current_park w t fs wait)

theorem concluded_sleep (w : World) (t : TaskId) (fs : List Frame) (micros : Int) :
    (w.sleep t fs micros).concluded = [] := by
  refine concluded_idle ?_
  unfold sleep
  split
  · exact current_park w t fs .turn
  · exact current_park _ t fs .alarm

/-- What comes to an outcome has counted it. -/
def Accounted (w v : World) : Prop := w.Scored v v.concluded

theorem Accounted.after (h : v.Accounted x) (same : v.metrics = w.metrics) : w.Accounted x := Scored.after h same

theorem Accounted.here (h : w.Accounted v) (step : w.tick = v) : w.Scored v w.tick.concluded := by
  rw [step]
  exact h

theorem Accounted.quiet (none : v.concluded = []) (same : v.metrics = w.metrics) : w.Accounted v := by
  unfold Accounted
  rw [none]
  exact .still same

theorem accounted_conclude (o : Outcome) : w.Accounted (w.conclude t fs o) := by
  cases o with
  | success story => exact .one w.metrics .succeeded
  | failed k m => exact .one w.metrics (.failed k)

theorem accounted_readOutcome (p : ProcessId) : w.Accounted (w.readOutcome t fs p) := by
  unfold readOutcome
  split
  · exact (accounted_conclude _).after (metrics_noteRun w _)
  · exact accounted_conclude _

theorem accounted_reaped (why : KillReason) : w.Accounted (w.reaped t fs why) := by
  cases why with
  | timedOut =>
    exact Accounted.after (v := w.note (.timedOut w.setup.limit)) (accounted_conclude _) rfl
  | cancelled => exact .quiet rfl rfl

theorem accounted_kill (p : ProcessId) (why : KillReason) : w.Accounted (w.kill t fs p why) := by
  unfold kill
  split
  · dsimp only
    split
    · exact Accounted.after (accounted_reaped why) rfl
    · split
      · exact Accounted.after (accounted_reaped why) rfl
      · exact .quiet (concluded_sleep _ t _ _) (metrics_sleep _ t _ _)
  · exact accounted_reaped why

theorem accounted_limitedWaitOver (p : ProcessId) (f : TaskId) (why : KillReason) :
    w.Accounted (w.limitedWaitOver t fs p f why) := by
  unfold limitedWaitOver
  split
  · split
    · exact accounted_kill p .cancelled
    · split
      · exact accounted_reaped .cancelled
      · exact accounted_readOutcome p
  · exact .quiet (concluded_park _ t _ _) (metrics_stopFollower w t fs p f why)

theorem accounted_awaitProcess (p : ProcessId) : w.Accounted (w.awaitProcess t fs p) := by
  refine .quiet ?_ (metrics_awaitProcess w t fs p)
  unfold awaitProcess
  dsimp only
  split
  · rfl
  · split
    · exact concluded_park _ t _ _
    · exact concluded_park _ t _ _

/-- A compiler that is started counts as started, and its outcome is counted if it is known at once, except
that its source could not be written. -/
theorem scored_invoke (exe : String) (text : String) :
    w.Scored (w.invoke t fs (some exe) text) (.started ::
      if (w.setup.child text).writeFault.isSome then [] else (w.invoke t fs (some exe) text).concluded) := by
  have begun : w.Scored (w.count "compile.started") [.started] := .one w.metrics .started
  unfold invoke
  dsimp only
  cases wrote : (w.setup.child text).writeFault with
  | some fault =>
    simp only [count, wrote]
    cases fault with
    | refused m => exact begun.then rfl
    | crashed name m => exact begun.then rfl
  | none =>
    simp only [count, wrote]
    refine begun.trans ?_
    cases (w.setup.child text).startFault with
    | none => exact Accounted.after (accounted_awaitProcess _) rfl
    | some fault =>
      cases fault with
      | refused m => exact Accounted.after (accounted_conclude _) rfl
      | crashed name m => exact Accounted.quiet rfl rfl

theorem scored_beginCompile {text : String} (running : w.current = some (t, fs, .start (.compile text))) :
    w.Scored (w.beginCompile t fs text) (w.scoresOf (.compile text)) := by
  have finder := finder_noteAll w w.finder.notes
  have setup := (Alike.noteAll w w.finder.notes).setup
  have step : w.tick = w.beginCompile t fs text := tick_running running
  unfold scoresOf
  rw [step]
  unfold beginCompile
  dsimp only
  rw [finder]
  cases w.finder.answer with
  | error f => exact .still (metrics_noteAll w _)
  | ok exe =>
    cases exe with
    | none => exact .still (metrics_noteAll w _)
    | some exe =>
      dsimp only
      rw [← setup]
      exact (scored_invoke exe text).after (metrics_noteAll w _)

/-! ### Edits, answers and subscribers -/

theorem gaugeDocuments_enabled (w : World) : w.gaugeDocuments.metrics.enabled = w.metrics.enabled ∧
    w.gaugeDocuments.metrics.counters = w.metrics.counters := by
  unfold gaugeDocuments Metrics.gauge
  dsimp only
  split <;> exact ⟨rfl, rfl⟩

theorem scored_bumped (w : World) (doc : DocId) : w.Scored (w.bumped doc) [] := by
  unfold bumped
  cases registered : w.slotOf? doc with
  | some y =>
    rw [ensureSlot_of_some registered]
    exact .still rfl
  | none =>
    rw [ensureSlot_of_none registered]
    obtain ⟨enabled, counters⟩ := gaugeDocuments_enabled { w with slots := w.slots ++ [Slot.new doc] }
    exact .of_counters enabled counters

theorem scored_removeSlot (w : World) (doc : DocId) : w.Scored (w.removeSlot doc).2 [] := by
  unfold removeSlot
  refine .of_counters ((gaugeDocuments_enabled _).1.trans ?_) ((gaugeDocuments_enabled _).2.trans ?_)
  · cases w.slotOf? doc <;> cases doc <;> rfl
  · cases w.slotOf? doc <;> cases doc <;> rfl

/-- The task that an edit finds waiting once its slot is open. -/
theorem pending_bumped (w : World) (doc : DocId) (text : String) :
    (((w.bumped doc).slots[(w.editBegun doc text).slot]?.bind (·.pending)).filter
      fun u => !(w.bumped doc).hasEnded u) = w.waiter? doc := by
  have ended : ∀ u, (w.bumped doc).hasEnded u = w.hasEnded u := fun u => by
    simp only [hasEnded, tasks_bumped]
  simp only [ended, waiter?]
  congr 1
  cases registered : w.slotOf? doc with
  | some y =>
    simp only [bumped, editBegun, ensureSlot_of_some registered, modifySlot, List.getElem?_modify_eq,
      Option.bind_some]
    cases w.slots[y]? <;> rfl
  | none =>
    simp [bumped, editBegun, ensureSlot_of_none registered, modifySlot, gaugeDocuments, Slot.new]

theorem scored_abandonPending (w : World) (y : SlotId) : w.Scored (w.abandonPending y)
    (((w.slots[y]?.bind (·.pending)).filter fun u => !w.hasEnded u).toList.map fun _ => .abandoned) := by
  unfold abandonPending
  dsimp only
  cases w.slots[y]?.bind (·.pending) with
  | none => exact .still rfl
  | some u =>
    dsimp only
    have same : (w.modifySlot y fun k => { k with pending := none }).hasEnded u = w.hasEnded u := rfl
    rw [same]
    cases ceased : w.hasEnded u with
    | true =>
      simp only [Option.filter, ceased]
      exact .still rfl
    | false =>
      have counted : ∀ x : World, x.Scored (x.count "debounce.abandoned") [.abandoned] :=
        fun x => .one x.metrics .abandoned
      simp only [Option.filter, ceased]
      exact (counted _).after (metrics_cancel (w.modifySlot y fun k => { k with pending := none }) u)

theorem scored_noteRendering (w : World) (how : Rendering) (a : Artifact) : w.Scored (w.noteRendering how a) [] := by
  have counted : w.metrics.Scores (how.count a.mode.kind w.metrics) [] := by
    cases how with
    | kept | placeholder => exact .refl _
    | reused => exact .elsewhere _ Counter.elsewhere_reused
    | built => exact .elsewhere _ (Counter.elsewhere_built _)
  unfold noteRendering
  dsimp only
  split <;> exact counted

theorem scored_deliver (t : TaskId) (fs : List Frame) (y : SlotId) (doc : String) (g : Nat) (m : Mode) :
    w.Scored (w.deliver t fs y doc g m) (if w.isCurrent y g then [] else [.dropped]) := by
  cases current : w.isCurrent y g with
  | false =>
    rw [deliver_stale t fs doc m current]
    exact .one w.metrics .dropped
  | true =>
    have drawn := scored_noteRendering ({ w with gallery := (w.gallery.render doc m).2.2 })
      (w.gallery.render doc m).2.1 (w.gallery.render doc m).1
    simp only [deliver, current]
    exact drawn

theorem scored_beginEdit (distinct : Distinct w.seats) (doc : DocId) (text : String) :
    w.Scored (w.beginEdit t fs doc text) (w.scoresOf (.edit doc text)) := by
  have abandoned := (scored_bumped w doc).trans (scored_abandonPending (w.bumped doc) (w.editBegun doc text).slot)
  rw [pending_bumped] at abandoned
  have seats : ((w.bumped doc).abandonPending (w.editBegun doc text).slot).seats = (w.bumped doc).seats :=
    seats_abandonPending _
  -- the edit is the newest one, so its own delivery is not out of date
  have delivered : ∀ {x : World} (fs : List Frame) (name : String) (m : Mode),
      x.metrics = ((w.bumped doc).abandonPending (w.editBegun doc text).slot).metrics →
      x.seats = (w.bumped doc).seats →
      w.Scored (x.deliver t fs (w.editBegun doc text).slot name (w.editBegun doc text).generation m)
        (w.scoresOf (.edit doc text)) := by
    intro x fs name m same seats
    have fresh := isCurrent_bumped distinct doc text seats
    have shown := scored_deliver (w := x) t fs (w.editBegun doc text).slot name (w.editBegun doc text).generation m
    rw [fresh] at shown
    simpa [scoresOf] using (abandoned.then same).trans shown
  by_cases named : ∃ name, doc = .name name
  · obtain ⟨name, rfl⟩ := named
    rw [beginEdit_name]
    dsimp only
    split
    · exact delivered _ _ _ rfl seats
    · exact delivered _ _ _ (metrics_startRequest _ _) ((seats_startRequest _).trans seats)
  · rw [beginEdit_unnamed w t fs text fun name eq => named ⟨name, eq⟩]
    exact abandoned.then rfl

theorem scored_settle (r : Request) (o : Outcome) : w.Scored (w.settle t fs r o)
    (if w.isCurrent r.slot r.generation then [] else [.dropped]) := by
  unfold settle
  cases current : w.isCurrent r.slot r.generation with
  | false => exact .one w.metrics .dropped
  | true =>
    have delivered : ∀ (x : World) (m : Mode), x.metrics = w.metrics → x.slots = w.slots →
        w.Scored (x.deliver t fs r.slot r.doc r.generation m) [] := by
      intro x m same slots
      have fresh : x.isCurrent r.slot r.generation = true := by simpa [isCurrent, slots] using current
      have shown := scored_deliver (w := x) t fs r.slot r.doc r.generation m
      rw [fresh] at shown
      exact shown.after same
    cases o with
    | success story => exact delivered w (.compiled story) rfl rfl
    | failed k m => exact delivered (w.note (.failed r.doc r.generation k)) (.compilerError m) rfl rfl

theorem isCurrent_release (w : World) (y y' : SlotId) (g : Nat) : (w.release y).isCurrent y' g = w.isCurrent y' g :=
  isCurrent_seats (seats_release y) y' g

theorem scored_compiled (r : Request) (v : Value) :
    w.Scored (w.compiled t fs r v) (w.scoresAt (.value v) (.holding r)) := by
  have released := metrics_release w r.slot
  unfold compiled
  cases v with
  | outcome o =>
    have settled : (w.release r.slot).Scored ((w.release r.slot).settle t fs r o) _ := scored_settle r o
    replace settled := settled.after released
    rw [isCurrent_release] at settled
    exact settled
  | unit | generation | exported | response | several => exact .still released

theorem scored_compileCrashed (r : Request) (f : Fault) :
    w.Scored (w.compileCrashed t fs r f) (w.scoresAt (.fault f) (.holding r)) := by
  have released := metrics_release (w.note (.crashed r.doc f.message)) r.slot
  let x := (w.note (.crashed r.doc f.message)).release r.slot
  have settled : x.Scored (x.settle t fs r (.failed .processError f.message)) _ := scored_settle r _
  replace settled := settled.after (w := w) released
  rw [isCurrent_release] at settled
  exact settled

theorem scored_subscriberFailed (u : Update) (js : List Nat) (f : Fault) :
    w.Scored (w.subscriberFailed t fs u js f) (w.scoresAt (.fault f) (.notifying u js)) := by
  have counted : w.Scored (w.count "callback.errors") [.errors] := .one w.metrics .errors
  exact counted.then (metrics_tellNext _ t fs u js)

theorem scored_exportCompiled (doc : String) (kind : ExportKind) (title : Option String) (v : Value) :
    w.Scored (w.exportCompiled t fs doc kind title v) [] := by
  unfold exportCompiled
  split
  · exact .elsewhere w.metrics (Counter.elsewhere_export kind)
  · exact .elsewhere w.metrics (Counter.elsewhere_failedExport kind)
  · exact .still rfl

theorem scored_beginExport (doc text : String) (kind : ExportKind) (title : Option String) :
    w.Scored (w.beginExport t fs doc text kind title) [] := by
  unfold beginExport
  split
  · exact .elsewhere w.metrics (Counter.elsewhere_export .source)
  · exact .still rfl

theorem scored_beginClose (doc : DocId) : w.Scored (w.beginClose t fs doc) [] := by
  have removed := scored_removeSlot w doc
  unfold beginClose
  dsimp only
  split
  · exact removed.then rfl
  · split
    · exact removed.then (metrics_closed _ t fs doc 0)
    · split
      · exact removed.then (cancelAll_nudges _ _).metrics
      · exact removed.then ((metrics_gather _ t _ _).trans (cancelAll_nudges _ _).metrics)

theorem scored_beginHandle (c : ClientId) (data : String) : w.Scored (w.beginHandle t fs c data) [] := by
  unfold beginHandle
  split
  · exact .still rfl
  · rename_i a _
    cases a with
    | edit doc text =>
      simp only [ask]
      split <;> exact .still rfl
    | view doc =>
      simp only [ask]
      split
      · exact .still rfl
      · split <;> exact .still rfl
    | close doc =>
      simp only [ask]
      split
      · split
        · unfold closeUnnamed
          split
          · obtain ⟨enabled, counters⟩ := gaugeDocuments_enabled w
            exact .of_counters enabled counters
          · exact .still rfl
        · exact .still rfl
      · exact .still rfl
    | snippet s => exact .still rfl
    | refused reason => exact .still rfl

/-! ### Steps and runs -/

theorem scored_begin (distinct : Distinct w.seats) {op : Op} (running : w.current = some (t, fs, .start op)) :
    w.Scored (w.begin t fs op) (w.scoresOf op) := by
  cases op with
  | edit doc text => exact scored_beginEdit distinct doc text
  | compile text => exact scored_beginCompile running
  | close doc => exact scored_beginClose doc
  | exportAs doc text kind title => exact scored_beginExport doc text kind title
  | handle c data => exact scored_beginHandle c data
  | waitIdle doc =>
    refine .still ?_
    simp only [World.begin, beginWaitIdle]
    split
    · rfl
    · exact metrics_awaitIdle w t fs _
  | closeAll => exact .still (metrics_closeNext w t fs _)
  | converse c => exact .still (metrics_receive _ t fs c)
  | send c m => exact .still (metrics_beginSend w t fs c m)
  | request r => exact .still (metrics_beginRequest w t fs r)
  | sleep micros => exact .still (metrics_sleep w t fs micros)
  | together ops => exact .still ((metrics_gather _ t _ _).trans (metrics_spawnAll w ops []))
  | background r => exact .still (metrics_sleep w t _ _)
  | follow p => exact .still (metrics_beginFollow w t fs p)
  | stop | reportedEdit => exact .still rfl

theorem scored_proceed {f : Frame} (v : Value) (running : w.current = some (t, f :: fs, .value v)) :
    w.Scored (w.proceed t fs v f) (w.scoresAt (.value v) f) := by
  have step : w.tick = w.proceed t fs v f := tick_running running
  cases f with
  | holding r => exact scored_compiled r v
  | running p => exact (accounted_readOutcome p).here step
  | limited p f => exact (accounted_limitedWaitOver p f .timedOut).here step
  | stoppingFollower p why => exact (accounted_kill p why).here step
  | reaping p why => 
    exact Accounted.here (.after (v := w.emit (.reaped w.clock p)) (accounted_reaped why) rfl) step
  | exporting doc kind title => exact scored_exportCompiled doc kind title v
  | notifying u js => exact .still (metrics_tellNext w t fs u js)
  | acting j u todo => exact .still (metrics_act w t fs j u todo)
  | broadcasting m c cs => exact .still (metrics_broadcastNext w t fs m cs)
  | quiet r => exact .still (metrics_quietEnded w t fs r)
  | queueing r => exact .still (metrics_called w t fs r)
  | following p => exact .still (metrics_processExited w t fs p)
  | closing doc n => exact .still (metrics_closed w t fs doc n)
  | idling y => exact .still (metrics_awaitIdle w t fs y)
  | closingAll docs => exact .still (metrics_closeNext w t fs docs)
  | serving c => exact .still (metrics_receive w t fs c)
  | receiving c => exact .still (metrics_received w t fs c)
  | sending c m => exact .still (metrics_transmit w t fs c m)
  | acknowledging c doc => cases v <;> exact .still rfl
  | reporting => cases v <;> exact .still rfl
  | answeringEdit doc title => cases v <;> exact .still rfl
  | answeringExport => cases v <;> exact .still rfl
  | issued | stopping | confirming | collecting | answering => exact .still rfl

theorem scored_recover {f : Frame} (e : Fault) (running : w.current = some (t, f :: fs, .fault e)) :
    w.Scored (w.recover t fs e f) (w.scoresAt (.fault e) f) := by
  have step : w.tick = w.recover t fs e f := tick_running running
  cases f with
  | holding r => exact scored_compileCrashed r e
  | notifying u js => exact scored_subscriberFailed u js e
  | running | limited | stoppingFollower | reaping =>
    exact Accounted.here (.quiet rfl rfl) step
  | broadcasting m c cs =>
    refine .still ((metrics_broadcastNext _ t fs m cs).trans ?_)
    cases c <;> rfl
  | serving c =>
    refine .still ?_
    simp only [recover, handlingFailed]
    split <;> rfl
  | answeringExport =>
    refine .still ?_
    simp only [recover, exportRefused]
    split <;> rfl
  | answering | issued | acting | quiet | queueing | following | closing | idling | closingAll | stopping
  | exporting | acknowledging | confirming | receiving | sending | collecting | reporting | answeringEdit =>
    exact .still rfl

theorem scored_abort {f : Frame} (running : w.current = some (t, f :: fs, .cancelled)) :
    w.Scored (w.abort t fs f) (w.scoresAt .cancelled f) := by
  have step : w.tick = w.abort t fs f := tick_running running
  cases f with
  | running p => exact (accounted_kill p .cancelled).here step
  | stoppingFollower p why => exact (accounted_kill p .cancelled).here step
  | limited p f => exact (accounted_limitedWaitOver p f .cancelled).here step
  | reaping p why => exact Accounted.here (.quiet rfl rfl) step
  | queueing r => exact .still (metrics_leftQueue w t fs r)
  | holding r => exact .still (metrics_release w r.slot)
  | quiet | serving | receiving | notifying | acting | issued | broadcasting | following | closing | idling
  | closingAll | stopping | exporting | acknowledging | confirming | sending | collecting | reporting
  | answeringEdit | answeringExport | answering => exact .still rfl

/-- One step of the running task counts what is read off the state before it. -/
theorem scored_move (distinct : Distinct w.seats) (running : w.current = some (t, fs, s)) :
    w.Scored (w.move t fs s) w.scores := by
  unfold scores
  rw [running]
  cases s with
  | start op => exact scored_begin distinct running
  | value v =>
    cases fs with
    | nil => exact .still (metrics_land w t (.finish _))
    | cons f rest => exact scored_proceed v running
  | fault e =>
    cases fs with
    | nil => exact .still (metrics_land w t (.finish _))
    | cons f rest => exact scored_recover e running
  | cancelled =>
    cases fs with
    | nil => exact .still (metrics_land w t (.finish _))
    | cons f rest => exact scored_abort running

theorem metrics_perform (w : World) (j : Job) : (w.perform j).metrics = w.metrics := by
  cases j with
  | resume t =>
    simp only [perform, World.resume]
    split
    · split <;> rfl
    · rfl
  | forget y u => rfl
  | joined g => exact (join_nudges w g (H := fun _ => False)).metrics
  | report u f => exact (learn_nudges w u f (H := fun _ => False)).metrics

theorem metrics_resumed (w : World) (idle : w.current = none) : (w.apply .tick).metrics = w.metrics := by
  cases queue : w.queue with
  | nil => rw [show w.apply .tick = w from tick_idle idle queue]
  | cons j rest =>
    rw [show w.apply .tick = ({ w with queue := rest } : World).perform j from tick_job idle queue]
    exact metrics_perform _ j

/-- Whatever happens from outside is not measured. -/
theorem metrics_apply (w : World) {i : Input} (other : i ≠ .tick) (quiet : ∀ e, i ≠ .enableMetrics e) :
    (w.apply i).metrics = w.metrics := by
  cases i with
  | tick => exact absurd rfl other
  | enableMetrics e => exact absurd rfl (quiet e)
  | jump =>
    simp only [World.apply]
    split
    · obtain ⟨now, le, nudges⟩ := jump_nudges (H := fun _ => False) w
      rw [nudges.metrics]
    · rfl
  | ring u => exact (ringTask_nudges w u (H := fun _ => False)).metrics
  | cancel u =>
    simp only [World.apply]
    split
    · exact metrics_cancel w u
    · rfl
  | begin op =>
    simp only [World.apply]
    split <;> rfl
  | welcome c path =>
    simp only [World.apply, welcome]
    split <;> rfl
  | arrive c x =>
    simp only [World.apply, arrive]
    split
    · rfl
    · split
      · rfl
      · exact (wakeReceiver_nudges _ c (H := fun _ => False)).metrics
  | pass | queue | subscribe | find | compiler | connect | breakLink | setTime => rfl

/-- Measurements are taken until they are turned off. -/
theorem Sane.apply_enabled (h : w.Sane) {i : Input} (enabled : w.metrics.enabled = true)
    (kept : i ≠ .enableMetrics false) : (w.apply i).metrics.enabled = true := by
  by_cases toggled : ∃ e, i = .enableMetrics e
  · obtain ⟨e, rfl⟩ := toggled
    cases e with
    | true => rfl
    | false => exact absurd rfl kept
  by_cases tick : i = .tick
  · subst tick
    cases running : w.current with
    | some p =>
      obtain ⟨t, fs, s⟩ := p
      rw [show w.apply .tick = w.move t fs s from tick_running running]
      exact (scored_move h.distinct running).enabled.trans enabled
    | none => exact (congrArg Metrics.enabled (metrics_resumed w running)).trans enabled
  · rw [metrics_apply w tick fun e eq => toggled ⟨e, eq⟩]
    exact enabled

/-- An input adds to the counters as long as measurements are taken. -/
theorem Sane.apply_scores (h : w.Sane) (i : Input) {c : Counter} {n : Nat} (reads : w.metrics.Reads c n) :
    (w.apply i).metrics.Reads c (n + if w.metrics.enabled then (w.scored i).count c else 0) := by
  by_cases tick : i = .tick
  · subst tick
    cases running : w.current with
    | some p =>
      obtain ⟨t, fs, s⟩ := p
      rw [show w.apply .tick = w.move t fs s from tick_running running]
      exact (scored_move h.distinct running).reads c n reads
    | none =>
      have nothing : w.scored .tick = [] := by simp [scored, scores, running]
      rw [nothing, metrics_resumed w running]
      simpa using reads
  · have nothing : w.scored i = [] := by
      cases i with
      | tick => exact absurd rfl tick
      | _ => rfl
    have counters : (w.apply i).metrics.counters = w.metrics.counters := by
      by_cases toggled : ∃ e, i = .enableMetrics e
      · obtain ⟨e, rfl⟩ := toggled
        rfl
      · rw [metrics_apply w tick fun e eq => toggled ⟨e, eq⟩]
    rw [nothing]
    simpa [Metrics.Reads, Metrics.counter, counters] using reads

theorem Sane.apply_scored (h : w.Sane) (i : Input) (enabled : w.metrics.enabled = true) {c : Counter} {n : Nat}
    (reads : w.metrics.Reads c n) : (w.apply i).metrics.Reads c (n + (w.scored i).count c) := by
  simpa [enabled] using h.apply_scores i reads

/-- As long as measurements are taken, each counter shows after a run what it showed before and one more for
each time a step has added to it. -/
theorem run_scored (h : w.Sane) (enabled : w.metrics.enabled = true) {inputs : List Input}
    (allowed : ∀ i ∈ inputs, i.IsPublic) (kept : .enableMetrics false ∉ inputs) {c : Counter} {n : Nat}
    (reads : w.metrics.Reads c n) : (w.run inputs).metrics.Reads c (n + (w.scoresAlong inputs).count c) := by
  induction inputs generalizing w n with
  | nil => exact reads
  | cons i rest ih =>
    obtain ⟨now, later⟩ := not_or.1 (List.mem_cons.not.1 kept)
    have step := h.apply_scored i enabled reads
    have run := ih (h.apply (allowed i (by simp))).sane (h.apply_enabled enabled (Ne.symm now))
      (fun j mem => allowed j (List.mem_cons_of_mem i mem)) later step
    simpa [scoresAlong, List.count_append, Nat.add_assoc, World.run] using run

end Live.World
end InkPreview
