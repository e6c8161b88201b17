import InkPreview.Proofs.Live.Turn
/-!
What reaches tasks while they wait: a cancellation, an alarm, the end of a group or of a follower,
a message. Each is a `Nudge`, and cancelling, ringing, joining and learning consist of nudges, so
what every nudge keeps all of them keep.
-/
namespace InkPreview.Live

/-- A wait that a cancellation breaks off. -/
def Wait.IsLoose : Wait → Prop
  | .alarm | .lock _ | .message _ | .follower _ => True
  | _ => False

namespace World

/-- All members of a group have ended, as far as the group has learned. -/
def IsOver (w : World) (g : GroupId) : Prop := ∃ h, w.groups[g]? = some h ∧ h.missing = 0

/-- One thing that reaches a waiting task. Only tasks of `H` are cancelled. -/
inductive Nudge (H : TaskId → Prop) : World → World → Prop
  | ask (w : World) {t : TaskId} (h : H t) : Nudge H w (w.setCancel t)
  | regroup (w : World) (g : GroupId) :
      Nudge H w { w with groups := w.groups.modify g fun h => { h with cancelRequested := true } }
  | detach (w : World) {t : TaskId} {k : Task} (h : H t) (found : w.tasks[t]? = some k)
      (loose : k.wait.IsLoose) : Nudge H w (w.detach t k.wait)
  | ring (w : World) {a : Alarm} (set : a ∈ w.alarms) (due : a.due ≤ w.clock) :
      Nudge H w (w.wake a.task (.value .unit))
  | join (w : World) {t : TaskId} {k : Task} {g : GroupId} {s : Signal}
      (found : w.tasks[t]? = some k) (waits : k.wait = .group g) (settled : w.IsOver g)
      (ends : s = .cancelled ∨ s = .value .unit) : Nudge H w (w.wake t s)
  | learn (w : World) {t f : TaskId} {k : Task} (found : w.tasks[t]? = some k)
      (waits : k.wait = .follower f) : Nudge H w (w.wake t (.value .unit))
  | hear (w : World) {t : TaskId} {c : ClientId} {k : Task} (found : w.tasks[t]? = some k)
      (waits : k.wait = .message c) : Nudge H w (w.wake t (.value .unit))

def Nudges (H : TaskId → Prop) : World → World → Prop := Relation.ReflTransGen (Nudge H)

/-- Any task may be cancelled. -/
def anyone (_ : TaskId) : Prop := True

namespace Nudges
variable {H : TaskId → Prop} {u v w : World}

theorem refl : Nudges H w w := Relation.ReflTransGen.refl

theorem one (h : Nudge H w v) : Nudges H w v := Relation.ReflTransGen.single h

theorem trans (h : Nudges H u v) (h' : Nudges H v w) : Nudges H u w :=
  Relation.ReflTransGen.trans h h'

theorem keep {P : World → Prop} (kept : ∀ w v, P w → Nudge H w v → P v) (h : Nudges H w v)
    (hw : P w) : P v := by
  induction h with
  | refl => exact hw
  | tail _ step ih => exact kept _ _ ih step

end Nudges

/-! ### Cancelling -/

theorem join_endless (r : Reach) : r.join .endless = .endless := by cases r <;> rfl

theorem join_reaches {r r' : Reach} (h : r ≠ .endless) (h' : r' ≠ .endless) : r.join r' ≠ .endless := by
  cases r <;> cases r' <;> simp_all [Reach.join]

section
variable {cancel : TaskId → World → Reach × World} {t : TaskId} {rest : List TaskId} {w : World}

theorem cancelEach_endless (first : (cancel t w).1 = .endless) : cancelEach cancel (t :: rest) w = cancel t w := by
  simp only [cancelEach, first, if_true]
  exact Prod.ext first.symm rfl

theorem cancelEach_onward (first : (cancel t w).1 ≠ .endless) : cancelEach cancel (t :: rest) w =
    ((cancel t w).1.join (cancelEach cancel rest (cancel t w).2).1, (cancelEach cancel rest (cancel t w).2).2) := by
  simp only [cancelEach, first, if_false]

/-- If there is an end to cancelling a task and then others, there is one to either. -/
theorem cancelEach_ends (ends : (cancelEach cancel (t :: rest) w).1 ≠ .endless) :
    (cancelEach cancel (t :: rest) w).2 = (cancelEach cancel rest (cancel t w).2).2 ∧
      (cancelEach cancel rest (cancel t w).2).1 ≠ .endless := by
  by_cases first : (cancel t w).1 = .endless
  · rw [cancelEach_endless first] at ends
    exact absurd first ends
  · rw [cancelEach_onward first] at ends ⊢
    refine ⟨rfl, fun endless => ends ?_⟩
    rw [endless, join_endless]

/-- If there is an end to cancelling tasks, each of them is cancelled, between those before it and those after. -/
theorem cancelEach_split {before after : List TaskId}
    (ends : (cancelEach cancel (before ++ t :: after) w).1 ≠ .endless) :
    (cancelEach cancel (before ++ t :: after) w).2 =
      (cancelEach cancel after (cancel t (cancelEach cancel before w).2).2).2 := by
  induction before generalizing w with
  | nil => exact (cancelEach_ends ends).1
  | cons u before ih =>
    rw [List.cons_append] at ends ⊢
    obtain ⟨eq, ends'⟩ := cancelEach_ends ends
    rw [eq, ih ends']
    by_cases first : (cancel u w).1 = .endless
    · rw [cancelEach_endless first] at ends
      exact absurd first ends
    · rw [cancelEach_onward first]

/-- There is an end to cancelling tasks if there is one to cancelling each, whatever of the others has been
cancelled. -/
theorem cancelEach_reaches {P : World → Prop} {ts : List TaskId}
    (kept : ∀ t ∈ ts, ∀ w, P w → P (cancel t w).2 ∧ (cancel t w).1 ≠ .endless) (h : P w) :
    (cancelEach cancel ts w).1 ≠ .endless := by
  induction ts generalizing w with
  | nil => nofun
  | cons t rest ih =>
    obtain ⟨onward, first⟩ := kept t List.mem_cons_self w h
    have others := ih (fun u mem => kept u (List.mem_cons_of_mem t mem)) onward
    rw [cancelEach_onward first]
    exact join_reaches first others

/-- What each cancelling keeps is kept by cancelling one task after the other. -/
theorem cancelEach_keep {P : World → Prop} {ts : List TaskId} (kept : ∀ t ∈ ts, ∀ w, P w → P (cancel t w).2) (h : P w) :
    P (cancelEach cancel ts w).2 := by
  induction ts generalizing w with
  | nil => exact h
  | cons t rest ih =>
    have first := kept t List.mem_cons_self w h
    by_cases endless : (cancel t w).1 = .endless
    · rw [cancelEach_endless endless]
      exact first
    · rw [cancelEach_onward endless]
      exact ih (fun u mem => kept u (List.mem_cons_of_mem t mem)) first

end

/-- What is kept by asking tasks of `H` to cancel, by asking groups to, and by detaching tasks of `H` that wait, is kept
by cancelling a task of `H`, if what those wait for is in `H` as well. -/
theorem cancelWith_within {P : World → Prop} {H : TaskId → Prop}
    (closed : ∀ w t k g, P w → H t → w.tasks[t]? = some k → k.wait = .group g → ∀ m ∈ w.membersOf g, H m)
    (asks : ∀ w t, P w → H t → P (w.setCancel t)) (regroups : ∀ (w : World) g, P w → P (w.requestCancel g))
    (detaches : ∀ (w : World) t k, P w → H t → w.tasks[t]? = some k → k.wait.IsLoose → P (w.detach t k.wait))
    (fuel : Nat) (trail : List TaskId) (t : TaskId) (w : World) (hit : H t) (h : P w) :
    P (cancelWith fuel trail t w).2 := by
  induction fuel generalizing trail t w with
  | zero => exact h
  | succ fuel ih =>
    unfold cancelWith
    split
    · exact h
    · rename_i k found
      cases wait : k.wait with
      | ended => exact h
      | turn | running => exact asks w t h hit
      | alarm | lock _ | message _ | follower _ =>
        have loose : k.wait.IsLoose := by rw [wait]; trivial
        have step := detaches w t k h hit found loose
        rwa [wait] at step
      | group g =>
        dsimp only
        split
        · exact h
        · have all : P (cancelEach (cancelWith fuel (t :: trail)) (w.membersOf g) w).2 :=
            cancelEach_keep (fun m mem v => ih (t :: trail) m v (closed w t k g h hit found wait m mem)) h
          split
          all_goals rename_i eq; rw [eq] at all
          · exact asks _ t all hit
          · exact regroups _ g all
          · exact all

/-- What is kept by asking tasks to cancel, by asking groups to, and by detaching waiting tasks, is kept by
cancelling. -/
theorem cancelWith_keep {P : World → Prop} (asks : ∀ w t, P w → P (w.setCancel t))
    (regroups : ∀ (w : World) g, P w → P (w.requestCancel g))
    (detaches : ∀ (w : World) t k, P w → w.tasks[t]? = some k → k.wait.IsLoose → P (w.detach t k.wait))
    (fuel : Nat) (trail : List TaskId) (t : TaskId) (w : World) (h : P w) : P (cancelWith fuel trail t w).2 :=
  cancelWith_within (H := anyone) (fun _ _ _ _ _ _ _ _ _ _ => trivial) (fun w t h _ => asks w t h) regroups
    (fun w t k h _ => detaches w t k h) fuel trail t w trivial h

theorem cancel_nudges (w : World) (t : TaskId) : Nudges anyone w (w.cancel t) :=
  cancelWith_keep (P := Nudges anyone w) (fun _ _ steps => steps.trans (.one (.ask _ trivial)))
    (fun _ g steps => steps.trans (.one (.regroup _ g)))
    (fun _ _ _ steps found loose => steps.trans (.one (.detach _ trivial found loose))) _ [] t w .refl

/-- A task that waits for no group is cancelled alone, whatever is being cancelled already. -/
theorem cancelWith_alone {w : World} {t : TaskId} (fuel : Nat) (trail : List TaskId)
    (alone : ∀ k g, w.tasks[t]? = some k → k.wait ≠ .group g) :
    Nudges (· = t) w (cancelWith (fuel + 1) trail t w).2 ∧ (cancelWith (fuel + 1) trail t w).1 ≠ .endless := by
  unfold cancelWith
  split
  · exact ⟨.refl, nofun⟩
  · rename_i k found
    cases wait : k.wait with
    | ended => exact ⟨.refl, nofun⟩
    | turn | running => exact ⟨.one (.ask w rfl), nofun⟩
    | alarm | lock _ | message _ | follower _ =>
      have loose : k.wait.IsLoose := by rw [wait]; trivial
      have step := Nudge.detach (H := (· = t)) w rfl found loose
      rw [wait] at step
      exact ⟨.one step, nofun⟩
    | group g => exact absurd wait (alone k g found)

/-- There is an end to cancelling a task that waits for no group. -/
theorem cancelling_alone {w : World} {t : TaskId}
    (alone : ∀ k g, w.tasks[t]? = some k → k.wait ≠ .group g) :
    Nudges (· = t) w (w.cancelling t).2 ∧ (w.cancelling t).1 ≠ .endless := cancelWith_alone _ [] alone

theorem cancel_alone {w : World} {t : TaskId} (alone : ∀ k g, w.tasks[t]? = some k → k.wait ≠ .group g) :
    Nudges (· = t) w (w.cancel t) := (cancelling_alone alone).1

theorem cancelAll_nudges (w : World) (ts : List TaskId) : Nudges anyone w (w.cancelAll ts) :=
  cancelEach_keep (fun t _ _ steps => steps.trans (cancel_nudges _ t)) .refl

/-! ### Alarms and jobs -/

section
variable {H : TaskId → Prop}

theorem ring_nudges (w : World) {a : Alarm} (due : a.due ≤ w.clock) : Nudges H w (w.ring a) := by
  unfold ring
  split
  · rename_i set
    exact .one (.ring w (by simpa using set) due)
  · exact .refl

theorem ringTask_nudges (w : World) (t : TaskId) : Nudges H w (w.ringTask t) := by
  unfold ringTask
  split
  · rename_i a found
    simp only [dueAlarm?, Option.filter_eq_some_iff] at found
    exact ring_nudges w (by simpa using found.2)
  · exact .refl

@[simp] theorem ring_clock (w : World) (a : Alarm) : (w.ring a).clock = w.clock := by
  unfold ring
  split
  · rfl
  · rfl

theorem ringAll_nudges (w : World) (as : List Alarm) (due : ∀ a ∈ as, a.due ≤ w.clock) :
    Nudges H w (as.foldl ring w) := by
  induction as generalizing w with
  | nil => exact .refl
  | cons a rest ih =>
    refine .trans (ring_nudges w (due a (by simp))) (ih _ fun b hb => ?_)
    rw [ring_clock]
    exact due b (List.mem_cons_of_mem a hb)

/-- Time passes first, then all alarms that are due ring. -/
theorem jump_nudges (w : World) :
    ∃ now, w.clock ≤ now ∧ Nudges H { w with clock := now } w.jump := by
  unfold jump
  split
  · exact ⟨w.clock, Nat.le_refl _, .refl⟩
  · rename_i due _
    exact ⟨max w.clock due, Nat.le_max_left _ _, ringAll_nudges _ _ fun a ha => by simp_all⟩

/-- The group has learned of one more end. -/
def counted (w : World) (g : GroupId) : World :=
  { w with groups := w.groups.modify g fun h => { h with missing := h.missing - 1 } }

theorem join_nudges (w : World) (g : GroupId) : Nudges H (w.counted g) (w.join g) := by
  unfold join
  rw [← counted]
  dsimp only
  split
  · rename_i h at_g
    split
    · rename_i met
      simp only [Bool.and_eq_true, decide_eq_true_eq] at met
      cases found : (w.counted g).tasks[h.waiter]? with
      | none => simp [found] at met
      | some k =>
        have waits : k.wait = .group g := by simpa [found] using met.2
        refine .one (.join _ found waits ⟨h, at_g, met.1⟩ ?_)
        cases h.cancelRequested with
        | true => exact .inl rfl
        | false => exact .inr rfl
    · exact .refl
  · exact .refl

theorem learn_nudges (w : World) (t f : TaskId) : Nudges H w (w.learn t f) := by
  unfold learn
  dsimp only
  split
  · rename_i met
    cases found : w.tasks[t]? with
    | none => simp [found] at met
    | some k =>
      have waits : k.wait = .follower f := by simpa [found] using met
      exact .one (.learn w found waits)
  · exact .refl

theorem wakeReceiver_nudges (w : World) (c : ClientId) : Nudges H w (w.wakeReceiver c) := by
  unfold wakeReceiver
  split
  · rename_i t found
    obtain ⟨lt, met, -⟩ := List.findIdx?_eq_some_iff_getElem.1 found
    exact .one (.hear w (List.getElem?_eq_getElem lt) (by simpa using met))
  · exact .refl

end

/-! ### What nudges leave alone -/

@[simp] theorem wake_tasks (w : World) (t : TaskId) (s : Signal) :
    (w.wake t s).tasks = w.tasks.modify t fun k => { k with wait := .turn, signal := s } := rfl

@[simp] theorem wake_slots (w : World) (t : TaskId) (s : Signal) : (w.wake t s).slots = w.slots := rfl

@[simp] theorem detach_tasks (w : World) (t : TaskId) (wait : Wait) :
    (w.detach t wait).tasks =
      w.tasks.modify t fun k => { k with wait := .turn, signal := .cancelled } := by
  cases wait <;> rfl

section
variable {H : TaskId → Prop} {w v : World}

/-- Slots keep everything but the marks in the queues of their locks. -/
theorem Nudge.slots (h : Nudge H w v) :
    v.slots = w.slots ∨ ∃ s t, v = w.detach t (.lock s) ∧
      v.slots = w.slots.modify s fun k => { k with lock := k.lock.mark t .cancelled } := by
  cases h with
  | @detach t k _ found loose =>
    cases wait : k.wait with
    | lock s => exact .inr ⟨s, t, rfl, rfl⟩
    | alarm | message _ | follower _ => exact .inl rfl
    | turn | running | group _ | ended => simp [wait, Wait.IsLoose] at loose
  | ask | regroup | ring | join | learn | hear => exact .inl rfl

/-- A nudge is a matter of tasks, slots, groups, alarms and the queue alone. -/
theorem Nudge.same {α : Type} {f : World → α} (own : ∀ (w : World) ks ts gs as js,
    f { w with slots := ks, tasks := ts, groups := gs, alarms := as, queue := js } = f w) (h : Nudge H w v) :
    f v = f w := by
  cases h with
  | @detach t k => cases k.wait <;> exact own w _ _ _ _ _
  | ask | regroup | ring | join | learn | hear => exact own w _ _ _ _ _

theorem Nudge.length (h : Nudge H w v) : v.tasks.length = w.tasks.length := by
  cases h with
  | @detach t k => cases k.wait <;> simp [World.detach, wake, enqueue, modifyTask, modifySlot]
  | ask | regroup | ring | join | learn | hear => simp [setCancel, wake, enqueue, modifyTask]

/-- A task keeps its frames; it may be told that its operation has ended or is cancelled. -/
theorem Nudge.task (h : Nudge H w v) {t : TaskId} {k' : Task} (found : v.tasks[t]? = some k') :
    ∃ k, w.tasks[t]? = some k ∧ k'.frames = k.frames ∧
      (k'.signal = k.signal ∨ k'.signal = .value .unit ∨ k'.signal = .cancelled) := by
  have woken : ∀ (u : TaskId) (s : Signal), s = .value .unit ∨ s = .cancelled →
      (w.tasks.modify u fun k => { k with wait := .turn, signal := s })[t]? = some k' →
      ∃ k, w.tasks[t]? = some k ∧ k'.frames = k.frames ∧
        (k'.signal = k.signal ∨ k'.signal = .value .unit ∨ k'.signal = .cancelled) := by
    intro u s ends found
    rw [List.getElem?_modify] at found
    obtain ⟨k, hk, rfl⟩ := Option.map_eq_some_iff.1 found
    refine ⟨k, hk, ?_⟩
    split
    · exact ⟨rfl, .inr ends⟩
    · exact ⟨rfl, .inl rfl⟩
  cases h with
  | ask =>
    simp only [setCancel, modifyTask, List.getElem?_modify] at found
    obtain ⟨k, hk, rfl⟩ := Option.map_eq_some_iff.1 found
    refine ⟨k, hk, ?_⟩
    split
    · exact ⟨rfl, .inl rfl⟩
    · exact ⟨rfl, .inl rfl⟩
  | regroup => exact ⟨k', found, rfl, .inl rfl⟩
  | detach =>
    rw [detach_tasks] at found
    exact woken _ _ (.inr rfl) found
  | ring | learn | hear => exact woken _ _ (.inl rfl) found
  | join _ _ _ ends => exact woken _ _ ends.symm found

namespace Nudges
variable (h : Nudges H w v)
include h

theorem length : v.tasks.length = w.tasks.length :=
  h.keep (P := fun x => x.tasks.length = w.tasks.length) (fun _ _ same step => step.length.trans same) rfl

theorem same {α : Type} {f : World → α} (own : ∀ (w : World) ks ts gs as js,
    f { w with slots := ks, tasks := ts, groups := gs, alarms := as, queue := js } = f w) : f v = f w :=
  h.keep (P := fun x => f x = f w) (fun _ _ kept step => (step.same own).trans kept) rfl

theorem setup : v.setup = w.setup := h.same fun _ _ _ _ _ _ => rfl
theorem calls : v.calls = w.calls := h.same fun _ _ _ _ _ _ => rfl
theorem current : v.current = w.current := h.same fun _ _ _ _ _ _ => rfl
theorem subscribers : v.subscribers = w.subscribers := h.same fun _ _ _ _ _ _ => rfl
theorem processes : v.processes = w.processes := h.same fun _ _ _ _ _ _ => rfl
theorem gallery : v.gallery = w.gallery := h.same fun _ _ _ _ _ _ => rfl
theorem metrics : v.metrics = w.metrics := h.same fun _ _ _ _ _ _ => rfl
theorem library : v.library = w.library := h.same fun _ _ _ _ _ _ => rfl

end Nudges

end

/-! ### Parking -/

/-- A cancellation that was asked for while the task ran reaches it as it stops to wait. If that has no end, as
it may only for a group, it stays asked for. -/
theorem park_cases (w : World) (t : TaskId) (fs : List Frame) (wait : Wait) :
    w.park t fs wait = w.yield t fs wait ∨
      (∃ g, wait = .group g ∧
        w.park t fs wait = (((w.yield t fs wait).clearCancel t).cancel t).setCancel t) ∨
      (∃ k, w.tasks[t]? = some k ∧ k.mustCancel = true) ∧ wait ≠ .turn ∧
        w.park t fs wait = ((w.yield t fs wait).clearCancel t).cancel t := by
  have asked : ((w.tasks[t]?.map (·.mustCancel)).getD false) = true →
      ∃ k, w.tasks[t]? = some k ∧ k.mustCancel = true := by
    cases w.tasks[t]? <;> simp
  unfold park
  dsimp only
  by_cases free : (!(w.tasks[t]?.map (·.mustCancel)).getD false || decide (wait = .turn)) = true
  · exact .inl (if_pos free)
  · have due : ((w.tasks[t]?.map (·.mustCancel)).getD false) = true ∧ wait ≠ .turn := by simpa using free
    rw [if_neg free]
    have waiting : ∀ k, ((w.yield t fs wait).clearCancel t).tasks[t]? = some k → k.wait = wait := by
      intro k found
      simp only [yield, clearCancel, modifyTask, List.getElem?_modify_eq] at found
      obtain ⟨k', found', rfl⟩ := Option.map_eq_some_iff.1 found
      obtain ⟨k'', -, rfl⟩ := Option.map_eq_some_iff.1 found'
      rfl
    have cancelled : ∀ r v, ((w.yield t fs wait).clearCancel t).cancelling t = (r, v) →
        v = ((w.yield t fs wait).clearCancel t).cancel t := fun r v eq => by rw [cancel, eq]
    split
    · rename_i v eq
      refine .inr (.inl ?_)
      -- only a task that waits for a group can be one of a circle
      cases wait with
      | group g => exact ⟨g, rfl, by rw [cancelled _ v eq]⟩
      | _ =>
        exact absurd (congrArg Prod.fst eq) (cancelling_alone fun k g found => by simp [waiting k found]).2
    · rename_i r v _ eq
      exact .inr (.inr ⟨asked due.1, due.2, cancelled _ v eq⟩)

/-- All that may happen to a task as it stops to wait is that it is cancelled. -/
theorem park_nudged (w : World) (t : TaskId) (fs : List Frame) (wait : Wait) :
    w.park t fs wait = w.yield t fs wait ∨
      Nudges anyone ((w.yield t fs wait).clearCancel t) (w.park t fs wait) := by
  rcases park_cases w t fs wait with eq | ⟨g, -, eq⟩ | ⟨-, -, eq⟩
  · exact .inl eq
  · exact .inr (eq ▸ (cancel_nudges _ t).trans (.one (.ask _ trivial)))
  · exact .inr (eq ▸ cancel_nudges _ t)

@[simp] theorem current_park (w : World) (t : TaskId) (fs : List Frame) (wait : Wait) :
    (w.park t fs wait).current = none := by
  rcases park_nudged w t fs wait with eq | nudges
  · rw [eq]; rfl
  · rw [nudges.current]; rfl

/-! ### Ending -/

theorem enqueueAll (js : List Job) (w : World) :
    js.foldl enqueue w = { w with queue := w.queue ++ js } := by
  induction js generalizing w with
  | nil => simp
  | cons j rest ih => simp [ih, enqueue]

/-- A task that has ended keeps nothing to go on with, and its watchers are queued. -/
theorem finish_eq (w : World) (t : TaskId) (r : Result) :
    ∃ f : Task → Task, (∀ k, (f k).frames = [] ∧ (f k).signal = k.signal ∧ (f k).wait = .ended ∧
        (f k).mustCancel = false ∧ (f k).watchers = k.watchers) ∧
      w.finish t r = { w.modifyTask t f with
        current := none, queue := w.queue ++ (w.tasks[t]?.map (·.watchers)).getD [] } := by
  let result := resultAsked ((w.tasks[t]?.map (·.mustCancel)).getD false) r
  refine ⟨fun k => { k with frames := [], wait := .ended, mustCancel := false, result },
    fun _ => ⟨rfl, rfl, rfl, rfl, rfl⟩, ?_⟩
  exact enqueueAll _ _

/-! ### What a landing leaves alone -/

section
variable {α : Type} {f : World → α} (nudged : ∀ {w v : World}, Nudges anyone w v → f v = f w)
  (own : ∀ (w : World) ks as js now, f { w with tasks := ks, alarms := as, queue := js, current := now } = f w)
include nudged own

/-- A task that stops to wait leaves alone whatever nudges do, if it is no matter of tasks, alarms or
the queue. -/
theorem park_same (w : World) (t : TaskId) (fs : List Frame) (wait : Wait) : f (w.park t fs wait) = f w := by
  have yielded : ∀ wait, f (w.yield t fs wait) = f w := fun wait => own w _ w.alarms w.queue none
  rcases park_nudged w t fs wait with eq | nudges
  · rw [eq, yielded]
  · exact (nudged nudges).trans (own w _ w.alarms w.queue none)

theorem land_same (w : World) (t : TaskId) (l : Landing) : f (w.land t l) = f w := by
  cases l with
  | go fs s => exact own w w.tasks w.alarms w.queue _
  | park fs wait => exact park_same nudged own w t fs wait
  | turn fs =>
    have parked := park_same nudged own w t fs .turn
    exact (own (w.park t fs .turn) _ _ _ _).trans parked
  | timed fs wait n =>
    have set : f (w.setAlarm t n) = f w := own w w.tasks _ w.queue w.current
    exact (park_same nudged own _ t fs wait).trans set
  | finish r =>
    obtain ⟨f', -, eq⟩ := finish_eq w t r
    rw [land, eq]
    exact own w _ w.alarms _ none

end

end World
end InkPreview.Live
