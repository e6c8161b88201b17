import InkPreview.Proofs.Live.Closing
import InkPreview.Proofs.Live.Parts.Parted
import InkPreview.Proofs.Live.Parts.Rooms
/-!
Turns in a part. Waiting, waking and cancelling on behalf of one part does the same there as in the whole, and leaves
the other part as it is.
-/
namespace InkPreview.Live

variable {e f : Inlay}

theorem Lock.via_mark {p : TaskId → TaskId} (inj : Function.Injective p) {e : Inlay} (same : e.task = p) (l : Lock)
    (t : TaskId) (x : Waiter) : (l.mark t x).via e = (l.via e).mark (e.task t) x := by
  subst same
  simp only [Lock.mark, Lock.via, List.map_map, Lock.mk.injEq, true_and]
  refine List.map_congr_left fun a _ => ?_
  by_cases here : a.1 = t
  · simp [here]
  · simp [here, inj.ne here]

theorem Lock.via_leave {e : Inlay} (inj : Function.Injective e.task) (l : Lock) (t : TaskId) :
    (l.leave t).via e = (l.via e).leave (e.task t) := by
  simp only [Lock.leave, Lock.via, List.filter_map, Lock.mk.injEq, true_and]
  refine congrArg _ (List.filter_congr fun a _ => ?_)
  have inj : e.task a.1 = e.task t ↔ a.1 = t := inj.eq_iff
  rw [Bool.eq_iff_iff]
  simp [inj]

theorem Lock.via_next (e : Inlay) (l : Lock) : (l.via e).next? = l.next?.map e.task := by
  obtain ⟨held, queue⟩ := l
  rcases queue with _ | ⟨⟨t, x⟩, rest⟩
  · rfl
  · cases x <;> rfl

namespace World.Parted
variable {w v u : World} {t : TaskId} {s : SlotId}

/-! ### Cancelling -/

theorem setCancel (h : Parted e f w v u) (t : TaskId) : Parted e f (w.setCancel (e.task t)) (v.setCancel t) u :=
  h.modifyTask t _ _ fun _ => rfl

theorem clearCancel (h : Parted e f w v u) (t : TaskId) : Parted e f (w.clearCancel (e.task t)) (v.clearCancel t) u :=
  h.modifyTask t _ _ fun _ => rfl

theorem mark (h : Parted e f w v u) (s : SlotId) (t : TaskId) (x : Waiter) :
    Parted e f (w.modifySlot (e.slot s) fun k => { k with lock := k.lock.mark (e.task t) x })
      (v.modifySlot s fun k => { k with lock := k.lock.mark t x }) u :=
  h.modifySlot s _ _ (fun k => by simp [Slot.via, Lock.via_mark h.apart.task.left.injective rfl]) fun _ => rfl

theorem detach (h : Parted e f w v u) (t : TaskId) (wait : Wait) :
    Parted e f (w.detach (e.task t) (wait.via e)) (v.detach t wait) u := by
  cases wait with
  | lock s => exact (h.mark s t .cancelled).wake t (x := .cancelled) rfl
  | _ => exact h.wake t (x := .cancelled) rfl

theorem requestCancel (h : Parted e f w v u) (g : GroupId) :
    Parted e f (w.requestCancel (e.group g)) (v.requestCancel g) u := h.modifyGroup g _ _ fun _ => rfl

theorem membersOf (h : Parted e f w v u) (g : GroupId) : w.membersOf (e.group g) = (v.membersOf g).map e.task := by
  unfold World.membersOf
  rw [h.group]
  cases v.groups[g]? <;> rfl

/-- Cancelling one task after the other does the same in the part, if cancelling each of them does. -/
theorem cancelEach {cancel cancel' : TaskId → World → Reach × World} (h : Parted e f w v u)
    (each : ∀ {w v : World} m, Parted e f w v u →
      (cancel' (e.task m) w).1 = (cancel m v).1 ∧ Parted e f (cancel' (e.task m) w).2 (cancel m v).2 u) (ts : List TaskId) :
    (World.cancelEach cancel' (ts.map e.task) w).1 = (World.cancelEach cancel ts v).1 ∧
      Parted e f (World.cancelEach cancel' (ts.map e.task) w).2 (World.cancelEach cancel ts v).2 u := by
  induction ts generalizing w v with
  | nil => exact ⟨rfl, h⟩
  | cons m rest ih =>
    obtain ⟨reach, first⟩ := each m h
    rw [List.map_cons]
    by_cases endless : (cancel m v).1 = .endless
    · rw [cancelEach_endless endless, cancelEach_endless (reach.trans endless)]
      exact ⟨reach, first⟩
    · rw [cancelEach_onward endless, cancelEach_onward (reach ▸ endless), reach]
      obtain ⟨others, rest⟩ := ih first
      rw [others]
      exact ⟨rfl, rest⟩

theorem cancelWith (h : Parted e f w v u) (fuel : Nat) (trail : List TaskId) (t : TaskId) :
    (World.cancelWith fuel (trail.map e.task) (e.task t) w).1 = (World.cancelWith fuel trail t v).1 ∧
      Parted e f (World.cancelWith fuel (trail.map e.task) (e.task t) w).2 (World.cancelWith fuel trail t v).2 u := by
  induction fuel generalizing trail t w v with
  | zero => exact ⟨rfl, h⟩
  | succ fuel ih =>
    have at_t := h.task t
    cases found : v.tasks[t]? with
    | none =>
      rw [found] at at_t
      simp only [World.cancelWith, found, at_t, Option.map_none]
      exact ⟨trivial, h⟩
    | some k =>
      rw [found] at at_t
      cases waits : k.wait with
      | group g =>
        have back : (trail.map e.task).contains (e.task t) = trail.contains t := by
          have inj := List.mem_map_of_injective h.apart.task.left.injective (a := t) (l := trail)
          rw [Bool.eq_iff_iff]
          simpa using inj
        obtain ⟨reach, cancelled⟩ := h.cancelEach (fun m parted => ih parted (t :: trail) m) (v.membersOf g)
        rw [List.map_cons] at reach cancelled
        simp only [World.cancelWith, found, at_t, Option.map_some, Task.via, waits, Wait.via, back, h.membersOf]
        split
        · exact ⟨rfl, h⟩
        · generalize World.cancelEach (World.cancelWith fuel (e.task t :: trail.map e.task)) _ w = p at *
          generalize World.cancelEach (World.cancelWith fuel (t :: trail)) _ v = q at *
          obtain ⟨r, w'⟩ := p
          obtain ⟨r', v'⟩ := q
          obtain rfl : r = r' := reach
          cases r with
          | missed => exact ⟨rfl, cancelled.setCancel t⟩
          | reached => exact ⟨rfl, cancelled.requestCancel g⟩
          | endless => exact ⟨rfl, cancelled⟩
      | turn | running =>
        simp only [World.cancelWith, found, at_t, Option.map_some, Task.via, waits, Wait.via]
        exact ⟨trivial, h.setCancel t⟩
      | ended =>
        simp only [World.cancelWith, found, at_t, Option.map_some, Task.via, waits, Wait.via]
        exact ⟨trivial, h⟩
      | alarm | lock | message | follower =>
        have stops := h.detach t k.wait
        rw [waits] at stops
        simp only [World.cancelWith, found, at_t, Option.map_some, Task.via, waits, Wait.via]
        exact ⟨trivial, stops⟩

/-- The part has no more tasks than the whole. -/
theorem fewer (h : Parted e f w v u) : v.tasks.length ≤ w.tasks.length := h.mine.tasks.length_le h.apart.task.left

theorem cancelling (h : Parted e f w v u) (t : TaskId) :
    (w.cancelling (e.task t)).1 = (v.cancelling t).1 ∧ Parted e f (w.cancelling (e.task t)).2 (v.cancelling t).2 u := by
  have same : v.cancelling t = World.cancelWith (w.tasks.length + 1) [] t v := cancelling_eq (Nat.lt_succ_of_le h.fewer)
  rw [same]
  exact h.cancelWith _ [] t

theorem cancel (h : Parted e f w v u) (t : TaskId) : Parted e f (w.cancel (e.task t)) (v.cancel t) u :=
  (h.cancelling t).2

theorem cancellingAll (h : Parted e f w v u) (ts : List TaskId) :
    (w.cancellingAll (ts.map e.task)).1 = (v.cancellingAll ts).1 ∧
      Parted e f (w.cancellingAll (ts.map e.task)).2 (v.cancellingAll ts).2 u :=
  h.cancelEach (fun m parted => parted.cancelling m) ts

/-! ### Waiting -/

theorem yield (h : Parted e f w v u) (t : TaskId) (fs : List Frame) (wait : Wait) :
    Parted e f (w.yield (e.task t) (fs.map (·.via e)) (wait.via e)) (v.yield t fs wait) u :=
  (h.modifyTask t (fun k => { k with frames := fs, wait, signal := .value .unit })
    (fun k => { k with frames := fs.map (·.via e), wait := wait.via e, signal := .value .unit }) fun _ => rfl).stop

theorem asked (h : Parted e f w v u) (t : TaskId) :
    ((w.tasks[e.task t]?.map (·.mustCancel)).getD false) = ((v.tasks[t]?.map (·.mustCancel)).getD false) := by
  rw [h.task]
  cases v.tasks[t]? <;> rfl

theorem park (h : Parted e f w v u) (t : TaskId) (fs : List Frame) (wait : Wait) :
    Parted e f (w.park (e.task t) (fs.map (·.via e)) (wait.via e)) (v.park t fs wait) u := by
  have waits := h.yield t fs wait
  have turn : wait.via e = .turn ↔ wait = .turn := by cases wait <;> simp [Wait.via]
  simp only [World.park, h.asked t, turn]
  split
  · exact waits
  · obtain ⟨reach, cancelled⟩ := (waits.clearCancel t).cancelling t
    generalize World.cancelling _ (e.task t) = p at *
    generalize World.cancelling _ t = q at *
    obtain ⟨r, w'⟩ := p
    obtain ⟨r', v'⟩ := q
    obtain rfl : r = r' := reach
    cases r with
    | endless => exact cancelled.setCancel t
    | missed | reached => exact cancelled

theorem sleep (h : Parted e f w v u) (t : TaskId) (fs : List Frame) (micros : Int) :
    Parted e f (w.sleep (e.task t) (fs.map (·.via e)) micros) (v.sleep t fs micros) u := by
  unfold World.sleep
  split
  · exact (h.park t fs .turn).enqueue (.resume t)
  · exact (h.setAlarm t micros.toNat).park t fs .alarm

theorem watchOrQueue (h : Parted e f w v u) (t : TaskId) (j : Job) :
    Parted e f (w.watchOrQueue (e.task t) (j.via e)) (v.watchOrQueue t j) u := by
  unfold World.watchOrQueue
  rw [h.hasEnded]
  split
  · exact h.enqueue j
  · exact h.modifyTask t _ _ fun k => by simp [Task.via]

theorem enroll (h : Parted e f w v u) (t : TaskId) (ms : List TaskId) (here : ∃ i, e.group i = w.groups.length) :
    w.groups.length = e.group v.groups.length ∧ Parted e f (w.enroll (e.task t) (ms.map e.task)) (v.enroll t ms) u := by
  have new : (⟨ms.map e.task, (ms.map e.task).length, e.task t, false⟩ : Group) = Group.via e ⟨ms, ms.length, t, false⟩ := by
    simp [Group.via]
  obtain ⟨next, added⟩ := h.addGroup new here
  refine ⟨next, ?_⟩
  have all : ∀ (ns : List TaskId) {w' v' : World}, Parted e f w' v' u →
      Parted e f ((ns.map e.task).foldl (fun x m => x.watchOrQueue m (.joined w.groups.length)) w')
        (ns.foldl (fun x m => x.watchOrQueue m (.joined v.groups.length)) v') u := by
    intro ns
    induction ns with
    | nil => exact fun parted => parted
    | cons n ns ih =>
      intro w' v' parted
      have watched := parted.watchOrQueue n (.joined v.groups.length)
      rw [Job.via, ← next] at watched
      exact ih watched
  exact all ms added

theorem gather (h : Parted e f w v u) (t : TaskId) (fs : List Frame) (ms : List TaskId)
    (room : e.Room w.extent (w.gather (e.task t) (fs.map (·.via e)) (ms.map e.task)).extent) :
    Parted e f (w.gather (e.task t) (fs.map (·.via e)) (ms.map e.task)) (v.gather t fs ms) u := by
  by_cases none : ms = []
  · subst none
    exact h.ret t fs .unit
  · have here : ∃ i, e.group i = w.groups.length := by
      refine room.group ?_
      rw [extent_gather _ _ _ (by simpa using none)]
      exact Nat.succ_ne_self _
    obtain ⟨next, enrolled⟩ := h.enroll t ms here
    have parked := enrolled.park t fs (.group v.groups.length)
    simp only [World.gather, List.isEmpty_map, List.isEmpty_iff, none, if_false]
    rw [Wait.via, ← next] at parked
    exact parked

/-- The running task has ended. -/
theorem finish (h : Parted e f w v u) (t : TaskId) (x : Result) :
    Parted e f (w.finish (e.task t) x) (v.finish t x) u := by
  have watchers : ((w.tasks[e.task t]?.map (·.watchers)).getD []) =
      ((v.tasks[t]?.map (·.watchers)).getD []).map (Job.via e) := by
    rw [h.task]
    cases v.tasks[t]? <;> rfl
  have ended := (h.modifyTask t (fun k =>
    { k with frames := [], wait := .ended, mustCancel := false,
             result := some (resultAsked ((v.tasks[t]?.map (·.mustCancel)).getD false) x) })
    (fun k => { k with frames := [], wait := .ended, mustCancel := false,
                            result := some (resultAsked ((v.tasks[t]?.map (·.mustCancel)).getD false) x) })
    fun _ => rfl).stop
  have all : ∀ (js : List Job) {w' v' : World}, Parted e f w' v' u →
      Parted e f ((js.map (Job.via e)).foldl World.enqueue w') (js.foldl World.enqueue v') u := by
    intro js
    induction js with
    | nil => exact fun parted => parted
    | cons j js ih => exact fun parted => ih (parted.enqueue j)
  unfold World.finish
  rw [watchers, h.asked t]
  exact all _ ended

/-! ### Locks -/

theorem callNext (h : Parted e f w v u) (s : SlotId) : Parted e f (w.callNext (e.slot s)) (v.callNext s) u := by
  have next : w.slots[e.slot s]?.bind (·.lock.next?) = (v.slots[s]?.bind (·.lock.next?)).map e.task := by
    rw [h.slot]
    cases v.slots[s]? with
    | none => rfl
    | some k => exact Lock.via_next e k.lock
  unfold World.callNext
  rw [next]
  cases v.slots[s]?.bind (·.lock.next?) with
  | none => exact h
  | some t => exact (h.mark s t .called).wake t (x := .value .unit) rfl

theorem setHeld (h : Parted e f w v u) (s : SlotId) (held : Bool) :
    Parted e f (w.setHeld (e.slot s) held) (v.setHeld s held) u := h.modifySlot s _ _ (fun _ => rfl) fun _ => rfl

theorem release (h : Parted e f w v u) (s : SlotId) : Parted e f (w.release (e.slot s)) (v.release s) u :=
  (h.setHeld s false).callNext s

theorem leaveQueue (h : Parted e f w v u) (s : SlotId) (t : TaskId) :
    Parted e f (w.leaveQueue (e.slot s) (e.task t)) (v.leaveQueue s t) u :=
  h.modifySlot s _ _ (fun k => by simp [Slot.via, Lock.via_leave h.apart.task.left.injective]) fun _ => rfl

/-! ### Jobs and alarms -/

theorem resume (h : Parted e f w v u) (t : TaskId) :
    Parted e f (w.resume (e.task t)) (v.resume t) u := by
  have at_t := h.task t
  unfold World.resume
  cases found : v.tasks[t]? with
  | none =>
    rw [found] at at_t
    rw [at_t]
    exact h
  | some k =>
    rw [found] at at_t
    have waits : (k.via e).wait = .turn ↔ k.wait = .turn := by cases wait : k.wait <;> simp [Task.via, Wait.via, wait]
    simp only [at_t, Option.map_some, waits]
    split
    · have resumed := (h.modifyTask t (fun k => { k with wait := .running, mustCancel := false })
        (fun k => { k with wait := .running, mustCancel := false }) fun _ => rfl).go t k.frames
        (if k.mustCancel then .cancelled else k.signal)
      have signal : (if k.mustCancel then Signal.cancelled else k.signal).via e =
          if k.mustCancel then .cancelled else k.signal.via e := by split <;> rfl
      rw [signal] at resumed
      exact resumed
    · exact h

theorem join (h : Parted e f w v u) (g : GroupId) : Parted e f (w.join (e.group g)) (v.join g) u := by
  have counted := h.modifyGroup g (fun x => { x with missing := x.missing - 1 })
    (fun x => { x with missing := x.missing - 1 }) fun _ => rfl
  have at_g := counted.group g
  unfold World.join
  dsimp only at at_g ⊢
  rw [at_g]
  cases (v.groups.modify g fun x => { x with missing := x.missing - 1 })[g]? with
  | none => exact counted
  | some x =>
    have waits : ((w.tasks[e.task x.waiter]?.map fun k => decide (k.wait = .group (e.group g))).getD false) =
        ((v.tasks[x.waiter]?.map fun k => decide (k.wait = .group g)).getD false) := by
      rw [h.task]
      cases v.tasks[x.waiter]? with
      | none => rfl
      | some k =>
        have inj := h.apart.group.left.injective
        cases wait : k.wait <;> simp [Task.via, Wait.via, wait, inj.eq_iff]
    simp only [Option.map_some, Group.via, waits]
    split
    · refine counted.wake x.waiter ?_
      split <;> rfl
    · exact counted

theorem learn (h : Parted e f w v u) (t follower : TaskId) :
    Parted e f (w.learn (e.task t) (e.task follower)) (v.learn t follower) u := by
  have waits : ((w.tasks[e.task t]?.map fun k => decide (k.wait = .follower (e.task follower))).getD false) =
      ((v.tasks[t]?.map fun k => decide (k.wait = .follower follower)).getD false) := by
    rw [h.task]
    cases v.tasks[t]? with
    | none => rfl
    | some k =>
      have inj := h.apart.task.left.injective
      cases wait : k.wait <;> simp [Task.via, Wait.via, wait, inj.eq_iff]
  unfold World.learn
  rw [waits]
  dsimp only
  split
  · exact h.wake t rfl
  · exact h

theorem perform (h : Parted e f w v u) (j : Job) :
    Parted e f (w.perform (j.via e)) (v.perform j) u := by
  cases j with
  | resume t => exact h.resume t
  | forget s t =>
    refine h.modifySlot s _ _ (fun k => ?_) fun _ => rfl
    have inj := h.apart.task.left.injective
    simp only [Slot.via, List.filter_map, Slot.mk.injEq, true_and, and_true]
    refine congrArg _ (List.filter_congr fun a _ => ?_)
    have inj : e.task a = e.task t ↔ a = t := inj.eq_iff
    rw [Bool.eq_iff_iff]
    simp [inj]
  | joined g => exact h.join g
  | report t follower => exact h.learn t follower

end World.Parted
end InkPreview.Live
