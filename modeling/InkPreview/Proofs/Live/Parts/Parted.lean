import InkPreview.Proofs.Live.Parts.Inlays
import InkPreview.Proofs.Live.Parts.Trails
import InkPreview.Proofs.Live.Seats
/-!
A whole in two parts. A part holds what belongs to its documents, under numbers of its own; what is done on behalf of
one part does the same there, and leaves the other part as it is.
-/
namespace InkPreview.Live

/-- Whether something holds, as a Boolean. -/
noncomputable def truth (p : Prop) : Bool := @decide p (Classical.propDecidable p)

theorem truth_iff {p : Prop} : truth p = true ↔ p := by simp [truth]

/-- The number is one that `p` gives. -/
noncomputable def among (p : Nat → Nat) (n : Nat) : Bool := truth (∃ i, p i = n)

theorem among_iff {p : Nat → Nat} {n : Nat} : among p n = true ↔ ∃ i, p i = n := truth_iff

@[simp] theorem among_self (p : Nat → Nat) (i : Nat) : among p (p i) = true := among_iff.2 ⟨i, rfl⟩

theorem Halves.among_other {p q : Nat → Nat} (h : Halves p q) (i : Nat) : among q (p i) = false := by
  rw [Bool.eq_false_iff, Ne, among_iff]
  rintro ⟨j, eq⟩
  exact h.apart i j eq.symm

/-- The job is for a task or a group of the part. -/
noncomputable def Job.isOf (e : Inlay) : Job → Bool
  | .resume t => among e.task t
  | .forget _ t => among e.task t
  | .joined g => among e.group g
  | .report t _ => among e.task t

@[simp] theorem Job.isOf_via (e : Inlay) (j : Job) : (j.via e).isOf e = true := by
  cases j <;> exact among_self _ _

theorem Inlay.Apart.isOf_other {e f : Inlay} (h : e.Apart f) (j : Job) : (j.via e).isOf f = false := by
  cases j with
  | resume | forget | report => exact h.task.among_other _
  | joined => exact h.group.among_other _

namespace World

/-- What subscribers have been told: when, who, and of which update. -/
def told (w : World) : List (Nat × Nat × Update) :=
  w.history.filterMap fun x => match x with
    | .told time i u => some (time, i, u)
    | _ => none

/-- How often a subscriber has been called. -/
def timesCalled (w : World) (i : Nat) : Nat := (w.calls[i]?).getD 0

/-- In `w` the editor `v` is laid out along `e`, with the documents of `e` and nothing else. -/
structure Inlaid (e : Inlay) (w v : World) : Prop where
  setup : v.setup = w.setup
  finder : v.finder = w.finder
  clock : v.clock = w.clock
  subscribers : ∀ i : Nat, v.subscribers[i]? = (w.subscribers[i]?).map (Subscriber.via (e.call i))
  called : w.calls.length = w.subscribers.length ∧ v.calls.length = w.subscribers.length
  calls : ∀ i n, e.call i n < w.timesCalled i ↔ n < v.timesCalled i
  slots : Stands e.slot (Slot.via e) w.slots v.slots
  tasks : Stands e.task (Task.via e) w.tasks v.tasks
  groups : Stands e.group (Group.via e) w.groups v.groups
  processes : Stands e.process (Process.via e) w.processes v.processes
  alarms : w.alarms.filter (fun a => among e.task a.task) = v.alarms.map (Alarm.via e)
  queue : w.queue.filter (Job.isOf e) = v.queue.map (Job.via e)
  told : w.told.filter (fun x => truth (e.docs (.name x.2.2.doc))) = v.told.map fun x => (x.1, x.2.1, x.2.2.via e)
  gallery : Holds e.page (fun name => e.docs (.name name)) w.gallery v.gallery
  opened : ∀ (s : SlotId) k, v.slots[s]? = some k → e.docs k.doc

theorem Inlaid.hearers {e : Inlay} {w v : World} (h : Inlaid e w v) : v.subscribers.length = w.subscribers.length := by
  have both := h.subscribers
  refine Nat.le_antisymm ?_ ?_
  · refine Nat.le_of_not_lt fun less => ?_
    have missing := both w.subscribers.length
    rw [List.getElem?_eq_none (Nat.le_refl _), List.getElem?_eq_getElem less] at missing
    cases missing
  · refine Nat.le_of_not_lt fun less => ?_
    have missing := both v.subscribers.length
    rw [List.getElem?_eq_none (Nat.le_refl _), List.getElem?_eq_getElem less] at missing
    cases missing

/-- The editor `w` in two parts, of which only the first, if any, has a task that runs. -/
structure Parted (e f : Inlay) (w v u : World) : Prop where
  apart : e.Apart f
  mine : Inlaid e w v
  other : Inlaid f w u
  current : w.current = v.current.map fun p => (e.task p.1, p.2.1.map (·.via e), p.2.2.via e)
  idle : u.current = none

namespace Parted
variable {e f : Inlay} {w v u : World} {t : TaskId} {s : SlotId}

/-! ### What is alike in the whole and its part -/

theorem task (h : Parted e f w v u) (t : TaskId) : w.tasks[e.task t]? = (v.tasks[t]?).map (Task.via e) :=
  h.mine.tasks t

theorem slot (h : Parted e f w v u) (s : SlotId) : w.slots[e.slot s]? = (v.slots[s]?).map (Slot.via e) :=
  h.mine.slots s

theorem group (h : Parted e f w v u) (g : GroupId) : w.groups[e.group g]? = (v.groups[g]?).map (Group.via e) :=
  h.mine.groups g

theorem process (h : Parted e f w v u) (p : ProcessId) :
    w.processes[e.process p]? = (v.processes[p]?).map (Process.via e) := h.mine.processes p

theorem hasEnded (h : Parted e f w v u) (t : TaskId) : w.hasEnded (e.task t) = v.hasEnded t := by
  rw [World.hasEnded, World.hasEnded, h.task]
  cases v.tasks[t]? with
  | none => rfl
  | some k => cases wait : k.wait <;> simp [Task.ended, Task.via, Wait.via, wait]

theorem wasCancelled (h : Parted e f w v u) (t : TaskId) : w.wasCancelled (e.task t) = v.wasCancelled t := by
  rw [World.wasCancelled, World.wasCancelled, h.task]
  cases v.tasks[t]? <;> rfl

theorem isCurrent (h : Parted e f w v u) (s : SlotId) (g : Nat) : w.isCurrent (e.slot s) g = v.isCurrent s g := by
  rw [World.isCurrent, World.isCurrent, h.slot]
  cases v.slots[s]? <;> rfl

theorem generationOf (h : Parted e f w v u) (s : SlotId) : w.generationOf (e.slot s) = v.generationOf s := by
  rw [World.generationOf, World.generationOf, h.slot]
  cases v.slots[s]? <;> rfl

/-! ### What leaves the parts as they are -/

theorem congr (h : Parted e f w v u) {w' v' : World} (alike : w.Alike w') (finder : w'.finder = w.finder)
    (told : w'.told = w.told) (alike' : v.Alike v') (finder' : v'.finder = v.finder) (told' : v'.told = v.told) :
    Parted e f w' v' u where
  apart := h.apart
  mine :=
    { setup := by rw [alike'.setup, alike.setup, h.mine.setup]
      finder := by rw [finder', finder, h.mine.finder]
      clock := by rw [alike'.clock, alike.clock, h.mine.clock]
      subscribers := by rw [alike'.subscribers, alike.subscribers]; exact h.mine.subscribers
      called := by rw [alike'.calls, alike.calls, alike.subscribers]; exact h.mine.called
      calls := by unfold timesCalled; rw [alike'.calls, alike.calls]; exact h.mine.calls
      slots := by rw [alike'.slots, alike.slots]; exact h.mine.slots
      tasks := by rw [alike'.tasks, alike.tasks]; exact h.mine.tasks
      groups := by rw [alike'.groups, alike.groups]; exact h.mine.groups
      processes := by rw [alike'.processes, alike.processes]; exact h.mine.processes
      alarms := by rw [alike'.alarms, alike.alarms, h.mine.alarms]
      queue := by rw [alike'.queue, alike.queue, h.mine.queue]
      told := by rw [told', told, h.mine.told]
      gallery := by rw [alike'.gallery, alike.gallery]; exact h.mine.gallery
      opened := by rw [alike'.slots]; exact h.mine.opened }
  other :=
    { setup := by rw [alike.setup, h.other.setup]
      finder := by rw [finder, h.other.finder]
      clock := by rw [alike.clock, h.other.clock]
      subscribers := by rw [alike.subscribers]; exact h.other.subscribers
      called := by rw [alike.calls, alike.subscribers]; exact h.other.called
      calls := by
        have calls := h.other.calls
        unfold timesCalled at calls ⊢
        rwa [alike.calls]
      slots := by rw [alike.slots]; exact h.other.slots
      tasks := by rw [alike.tasks]; exact h.other.tasks
      groups := by rw [alike.groups]; exact h.other.groups
      processes := by rw [alike.processes]; exact h.other.processes
      alarms := by rw [alike.alarms, h.other.alarms]
      queue := by rw [alike.queue, h.other.queue]
      told := by rw [told, h.other.told]
      gallery := by rw [alike.gallery]; exact h.other.gallery
      opened := h.other.opened }
  current := by rw [alike.current, alike'.current, h.current]
  idle := h.idle

theorem emit (h : Parted e f w v u) (x x' : Event) (silent : ∀ time i y, x ≠ .told time i y)
    (silent' : ∀ time i y, x' ≠ .told time i y) : Parted e f (w.emit x) (v.emit x') u := by
  refine h.congr (.emit w x) rfl ?_ (.emit v x') rfl ?_
  · cases x <;> first | rfl | exact absurd rfl (silent _ _ _)
  · cases x' <;> first | rfl | exact absurd rfl (silent' _ _ _)

theorem note (h : Parted e f w v u) (n n' : Note) : Parted e f (w.note n) (v.note n') u :=
  h.emit _ _ (fun _ _ _ => nofun) (fun _ _ _ => nofun)

theorem noteAll (h : Parted e f w v u) (ns : List Note) : Parted e f (w.noteAll ns) (v.noteAll ns) u := by
  induction ns generalizing w v with
  | nil => exact h
  | cons n rest ih => exact ih (h.note n n)

theorem count (h : Parted e f w v u) (n : String) : Parted e f (w.count n) (v.count n) u :=
  h.congr (.count w n) rfl rfl (.count v n) rfl rfl

theorem countBy (h : Parted e f w v u) (n l x : String) : Parted e f (w.countBy n l x) (v.countBy n l x) u :=
  h.congr (.countBy w n l x) rfl rfl (.countBy v n l x) rfl rfl

/-- A subscriber is told of an update. -/
theorem hear (h : Parted e f w v u) (i : Nat) {y : Update} (of : e.docs (.name y.doc)) :
    Parted e f (w.emit (.told w.clock i (y.via e))) (v.emit (.told v.clock i y)) u :=
  { h with
    mine := { h.mine with
      told := by
        have old := h.mine.told
        show List.filter _ ((w.clock, i, y.via e) :: w.told) = List.map _ ((v.clock, i, y) :: v.told)
        rw [List.map_cons, ← old, h.mine.clock]
        exact List.filter_cons_of_pos (truth_iff.2 of) }
    other := { h.other with
      told := by
        show List.filter _ ((w.clock, i, y.via e) :: w.told) = _
        rw [List.filter_cons_of_neg, h.other.told]
        rw [Bool.not_eq_true, Bool.eq_false_iff, Ne, truth_iff]
        exact (h.apart.docs _).1 of } }

/-! ### Tasks and slots -/

theorem modifyTask (h : Parted e f w v u) (t : TaskId) (c c' : Task → Task)
    (same : ∀ k, (c k).via e = c' (k.via e)) :
    Parted e f (w.modifyTask (e.task t) c') (v.modifyTask t c) u :=
  { h with
    mine := { h.mine with tasks := h.mine.tasks.modify h.apart.task.left t c c' same }
    other := { h.other with tasks := h.other.tasks.modify_other (fun i => (h.apart.task.apart t i).symm) c' } }

theorem modifySlot (h : Parted e f w v u) (s : SlotId) (c c' : Slot → Slot)
    (same : ∀ k, (c k).via e = c' (k.via e))
    (doc : ∀ k, (c k).doc = k.doc) : Parted e f (w.modifySlot (e.slot s) c') (v.modifySlot s c) u :=
  { h with
    mine := { h.mine with
      slots := h.mine.slots.modify h.apart.slot.left s c c' same
      opened := by
        intro i k found
        simp only [World.modifySlot, List.getElem?_modify, Option.map_eq_map, Option.map_eq_some_iff] at found
        obtain ⟨k, old, rfl⟩ := found
        split
        · exact doc k ▸ h.mine.opened i k old
        · exact h.mine.opened i k old }
    other := { h.other with slots := h.other.slots.modify_other (fun i => (h.apart.slot.apart s i).symm) c' } }

theorem modifyGroup (h : Parted e f w v u) (g : GroupId) (c c' : Group → Group)
    (same : ∀ k, (c k).via e = c' (k.via e)) :
    Parted e f { w with groups := w.groups.modify (e.group g) c' } { v with groups := v.groups.modify g c } u :=
  { h with
    mine := { h.mine with groups := h.mine.groups.modify h.apart.group.left g c c' same }
    other := { h.other with groups := h.other.groups.modify_other (fun i => (h.apart.group.apart g i).symm) c' } }

theorem setProcess (h : Parted e f w v u) (p : ProcessId) (x : ProcessState) :
    Parted e f (w.setProcess (e.process p) x) (v.setProcess p x) u :=
  { h with
    mine := { h.mine with processes := h.mine.processes.modify h.apart.process.left p _ _ fun _ => rfl }
    other := { h.other with
      processes := h.other.processes.modify_other (fun i => (h.apart.process.apart p i).symm) _ } }

/-! ### The queue and the alarms -/

theorem enqueue (h : Parted e f w v u) (j : Job) : Parted e f (w.enqueue (j.via e)) (v.enqueue j) u :=
  { h with
    mine := { h.mine with queue := by simp [World.enqueue, h.mine.queue] }
    other := { h.other with queue := by simp [World.enqueue, h.other.queue, h.apart.isOf_other] } }

theorem setAlarm (h : Parted e f w v u) (t : TaskId) (micros : Nat) :
    Parted e f (w.setAlarm (e.task t) micros) (v.setAlarm t micros) u :=
  { h with
    mine := { h.mine with alarms := by simp [World.setAlarm, h.mine.alarms, Alarm.via, h.mine.clock] }
    other := { h.other with alarms := by simp [World.setAlarm, h.other.alarms, h.apart.task.among_other] } }

/-- The alarms of a task are taken away. -/
theorem silence (h : Parted e f w v u) (t : TaskId) :
    Parted e f { w with alarms := w.alarms.filter (·.task != e.task t) }
      { v with alarms := v.alarms.filter (·.task != t) } u :=
  { h with
    mine := { h.mine with
      alarms := by
        have same : ((fun a : Alarm => a.task != e.task t) ∘ Alarm.via e) = fun a => a.task != t := by
          funext a
          have inj : e.task a.task = e.task t ↔ a.task = t := h.apart.task.left.injective.eq_iff
          rw [Bool.eq_iff_iff]
          simp [Alarm.via, inj]
        rw [← same, ← List.filter_map, ← h.mine.alarms, List.filter_filter, List.filter_filter]
        simp only [Bool.and_comm] }
    other := { h.other with
      alarms := by
        rw [← h.other.alarms, List.filter_filter]
        refine List.filter_congr fun a _ => ?_
        by_cases mine : among f.task a.task = true
        · have apart : a.task ≠ e.task t := by
            rintro eq
            rw [eq, h.apart.task.among_other] at mine
            cases mine
          simp [mine, apart]
        · simp [mine] } }

theorem wake (h : Parted e f w v u) (t : TaskId) {x x' : Signal} (same : x' = x.via e) :
    Parted e f (w.wake (e.task t) x') (v.wake t x) u := by
  subst same
  have woken := h.modifyTask t (fun k => { k with wait := .turn, signal := x })
    (fun k => { k with wait := .turn, signal := x.via e }) fun _ => rfl
  exact (woken.silence t).enqueue (.resume t)

/-! ### What is new -/

theorem spawn (h : Parted e f w v u) {op op' : Op} (same_op : op' = op.via e) (here : ∃ i, e.task i = w.tasks.length)
    (watchers watchers' : TaskId → List Job) (same : ∀ t, watchers' (e.task t) = (watchers t).map (Job.via e)) :
    (w.spawn op' watchers').1 = e.task (v.spawn op watchers).1 ∧
      Parted e f (w.spawn op' watchers').2 (v.spawn op watchers).2 u := by
  subst same_op
  have next := h.mine.tasks.next h.apart.task.left here
  have new : (⟨[], .start (op.via e), .turn, false, watchers' w.tasks.length, none⟩ : Task) =
      Task.via e ⟨[], .start op, .turn, false, watchers v.tasks.length, none⟩ := by
    simp [Task.via, Signal.via, Wait.via, ← next, same]
  have added : Parted e f
      { w with tasks := w.tasks ++ [⟨[], .start (op.via e), .turn, false, watchers' w.tasks.length, none⟩] }
      { v with tasks := v.tasks ++ [⟨[], .start op, .turn, false, watchers v.tasks.length, none⟩] } u := by
    rw [new]
    exact { h with
      mine := { h.mine with tasks := h.mine.tasks.append h.apart.task.left here _ }
      other := { h.other with
        tasks := h.other.tasks.append_other (fun i eq => h.apart.task.apart v.tasks.length i (next.trans eq.symm)) _ } }
  refine ⟨next.symm, ?_⟩
  have queued := added.enqueue (.resume v.tasks.length)
  simp only [Job.via, next] at queued
  exact queued

theorem openSlot (h : Parted e f w v u) {doc : DocId} (of : e.docs doc) (here : ∃ i, e.slot i = w.slots.length) :
    w.slots.length = e.slot v.slots.length ∧
      Parted e f { w with slots := w.slots ++ [Slot.new doc] } { v with slots := v.slots ++ [Slot.new doc] } u := by
  have next := h.mine.slots.next h.apart.slot.left here
  refine ⟨next.symm, { h with
    mine := { h.mine with
      slots := h.mine.slots.append h.apart.slot.left here (Slot.new doc)
      opened := by
        intro i k found
        rcases getElem?_concat_iff.1 found with old | ⟨-, rfl⟩
        · exact h.mine.opened i k old
        · exact of }
    other := { h.other with
      slots := h.other.slots.append_other (fun i eq => h.apart.slot.apart v.slots.length i (next.trans eq.symm)) _ } }⟩

theorem addGroup (h : Parted e f w v u) {k k' : Group} (same : k' = k.via e) (here : ∃ i, e.group i = w.groups.length) :
    w.groups.length = e.group v.groups.length ∧
      Parted e f { w with groups := w.groups ++ [k'] } { v with groups := v.groups ++ [k] } u := by
  subst same
  have next := h.mine.groups.next h.apart.group.left here
  exact ⟨next.symm, { h with
    mine := { h.mine with groups := h.mine.groups.append h.apart.group.left here k }
    other := { h.other with
      groups := h.other.groups.append_other (fun i eq => h.apart.group.apart v.groups.length i (next.trans eq.symm)) _ } }⟩

theorem addProcess (h : Parted e f w v u) (k k' : Process) (same : k' = k.via e)
    (here : ∃ i, e.process i = w.processes.length) : w.processes.length = e.process v.processes.length ∧
      Parted e f { w with processes := w.processes ++ [k'] } { v with processes := v.processes ++ [k] } u := by
  subst same
  have next := h.mine.processes.next h.apart.process.left here
  exact ⟨next.symm, { h with
    mine := { h.mine with processes := h.mine.processes.append h.apart.process.left here k }
    other := { h.other with
      processes := h.other.processes.append_other
        (fun i eq => h.apart.process.apart v.processes.length i (next.trans eq.symm)) _ } }⟩

/-! ### The running task -/

theorem go (h : Parted e f w v u) (t : TaskId) (fs : List Frame) (x : Signal) :
    Parted e f (w.go (e.task t) (fs.map (·.via e)) (x.via e)) (v.go t fs x) u :=
  { h with
    mine := { h.mine with }
    other := { h.other with }
    current := rfl }

theorem stop (h : Parted e f w v u) : Parted e f { w with current := none } { v with current := none } u :=
  { h with
    mine := { h.mine with }
    other := { h.other with }
    current := rfl }

theorem ret (h : Parted e f w v u) (t : TaskId) (fs : List Frame) (y : Value) :
    Parted e f (w.ret (e.task t) (fs.map (·.via e)) y) (v.ret t fs y) u := h.go t fs (.value y)

theorem fail (h : Parted e f w v u) (t : TaskId) (fs : List Frame) (y : Fault) :
    Parted e f (w.fail (e.task t) (fs.map (·.via e)) y) (v.fail t fs y) u := h.go t fs (.fault y)

theorem unwind (h : Parted e f w v u) (t : TaskId) (fs : List Frame) :
    Parted e f (w.unwind (e.task t) (fs.map (·.via e))) (v.unwind t fs) u := h.go t fs .cancelled

theorem call (h : Parted e f w v u) (t : TaskId) (fs : List Frame) (op : Op) :
    Parted e f (w.call (e.task t) (fs.map (·.via e)) (op.via e)) (v.call t fs op) u := h.go t fs (.start op)

end Parted
end World
end InkPreview.Live
