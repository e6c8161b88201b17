import InkPreview.Proofs.Live.Parts.Inlays
import InkPreview.Proofs.Live.Waking
/-!
Room for what is new. The extent of an editor says how many tasks, slots, groups, processes and pages there are, and how
often each subscriber has been called; a part has room for a step if it has the numbers that the step takes up.
-/
namespace InkPreview.Live

/-- How much of everything that is numbered there is. -/
structure Extent where
  tasks : Nat
  slots : Nat
  groups : Nat
  processes : Nat
  pages : Nat
  calls : List Nat

/-- The numbers that are taken up between two extents are the part's. -/
structure Inlay.Room (e : Inlay) (a b : Extent) : Prop where
  task : b.tasks ≠ a.tasks → ∃ i, e.task i = a.tasks
  slot : b.slots ≠ a.slots → ∃ i, e.slot i = a.slots
  group : b.groups ≠ a.groups → ∃ i, e.group i = a.groups
  process : b.processes ≠ a.processes → ∃ i, e.process i = a.processes
  page : b.pages ≠ a.pages → ∃ i, e.page i = a.pages
  call : ∀ i : Nat, (b.calls[i]?).getD 0 ≠ (a.calls[i]?).getD 0 → ∃ n, e.call i n = (a.calls[i]?).getD 0

namespace World

def extent (w : World) : Extent :=
  ⟨w.tasks.length, w.slots.length, w.groups.length, w.processes.length, w.gallery.next, w.calls⟩

section
variable {w v : World}

@[simp] theorem extent_count (w : World) (n : String) : (w.count n).extent = w.extent := rfl

@[simp] theorem extent_noteAll (w : World) (ns : List Note) : (w.noteAll ns).extent = w.extent := by
  induction ns generalizing w with
  | nil => rfl
  | cons n rest ih => exact ih (w.note n)

@[simp] theorem extent_modifyTask (w : World) (t : TaskId) (c : Task → Task) :
    (w.modifyTask t c).extent = w.extent := by
  simp [extent, modifyTask]

@[simp] theorem extent_modifySlot (w : World) (s : SlotId) (c : Slot → Slot) :
    (w.modifySlot s c).extent = w.extent := by
  simp [extent, modifySlot]

@[simp] theorem extent_enqueue (w : World) (j : Job) : (w.enqueue j).extent = w.extent := rfl

@[simp] theorem extent_setAlarm (w : World) (t : TaskId) (n : Nat) : (w.setAlarm t n).extent = w.extent := rfl

@[simp] theorem extent_wake (w : World) (t : TaskId) (x : Signal) : (w.wake t x).extent = w.extent :=
  extent_modifyTask w t _

theorem Nudge.extent {H : TaskId → Prop} (h : Nudge H w v) : v.extent = w.extent := by
  cases h with
  | ask => exact extent_modifyTask w _ _
  | regroup => simp [World.extent]
  | @detach t k =>
    cases k.wait with
    | lock s => exact (extent_wake (w.modifySlot s _) t _).trans (extent_modifySlot w s _)
    | _ => exact extent_wake w t _
  | ring | join | learn | hear => exact extent_wake w _ _

@[simp] theorem extent_cancel (w : World) (t : TaskId) : (w.cancel t).extent = w.extent :=
  Nudges.keep (P := fun x => x.extent = w.extent) (fun _ _ same step => step.extent.trans same) (cancel_nudges w t) rfl

@[simp] theorem extent_cancelAll (w : World) (ts : List TaskId) : (w.cancelAll ts).extent = w.extent :=
  Nudges.keep (P := fun x => x.extent = w.extent) (fun _ _ same step => step.extent.trans same) (cancelAll_nudges w ts) rfl

@[simp] theorem extent_yield (w : World) (t : TaskId) (fs : List Frame) (wait : Wait) :
    (w.yield t fs wait).extent = w.extent := extent_modifyTask w t _

@[simp] theorem extent_park (w : World) (t : TaskId) (fs : List Frame) (wait : Wait) :
    (w.park t fs wait).extent = w.extent := by
  rcases park_cases w t fs wait with eq | ⟨g, -, eq⟩ | ⟨-, -, eq⟩
  · rw [eq, extent_yield]
  · rw [eq, setCancel, extent_modifyTask, extent_cancel, clearCancel, extent_modifyTask, extent_yield]
  · rw [eq, extent_cancel, clearCancel, extent_modifyTask, extent_yield]

@[simp] theorem extent_sleep (w : World) (t : TaskId) (fs : List Frame) (n : Int) :
    (w.sleep t fs n).extent = w.extent := by
  unfold sleep
  split
  · rw [extent_enqueue, extent_park]
  · rw [extent_park, extent_setAlarm]

theorem extent_spawn (w : World) (op : Op) (ws : TaskId → List Job) :
    (w.spawn op ws).2.extent = { w.extent with tasks := w.tasks.length + 1 } := by
  simp [spawn, enqueue, extent]

theorem extent_gather (w : World) (t : TaskId) (fs : List Frame) {ms : List TaskId} (some : ms ≠ []) :
    (w.gather t fs ms).extent = { w.extent with groups := w.groups.length + 1 } := by
  have enrolled : (w.enroll t ms).extent = { w.extent with groups := w.groups.length + 1 } := by
    obtain ⟨ks, js, eq, length, -⟩ := enroll_eq w t ms
    simp [eq, extent, length]
  have step : w.gather t fs ms = (w.enroll t ms).park t fs (.group w.groups.length) := by
    unfold gather
    rw [if_neg (by simpa using some)]
    rfl
  rw [step, extent_park, enrolled]

@[simp] theorem extent_callNext (w : World) (s : SlotId) : (w.callNext s).extent = w.extent := by
  unfold callNext
  split
  · rw [extent_wake, extent_modifySlot]
  · rfl

@[simp] theorem extent_setHeld (w : World) (s : SlotId) (held : Bool) : (w.setHeld s held).extent = w.extent :=
  extent_modifySlot w s _

@[simp] theorem extent_release (w : World) (s : SlotId) : (w.release s).extent = w.extent := by
  rw [release, extent_callNext, extent_setHeld]

end
end World
end InkPreview.Live
