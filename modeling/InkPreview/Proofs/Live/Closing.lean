import InkPreview.Proofs.Live.Endings
/-!
The first step of a closing. It takes the slot away, cancels the slot's tasks and then waits for all
of them, unless cancelling one of them has no end. Main statement: `beginClose_tasks`.
-/
namespace InkPreview.Live
namespace World
variable {w v : World} {t u : TaskId} {s : SlotId}

/-- The task runs, and no alarm is set for it. -/
structure AtWork (w : World) (t : TaskId) : Prop where
  task : ∃ k, w.tasks[t]? = some k ∧ k.wait = .running
  unalarmed : ∀ a ∈ w.alarms, a.task ≠ t

namespace AtWork

theorem wake (h : w.AtWork t) (x : Signal) (other : u ≠ t) : (w.wake u x).AtWork t := by
  obtain ⟨k, found, runs⟩ := h.task
  refine ⟨⟨k, ?_, runs⟩, fun a ha => h.unalarmed a (List.mem_filter.1 ha).1⟩
  simp [other, found]

theorem other (h : w.AtWork t) {k : Task} (found : w.tasks[u]? = some k) (idle : k.wait ≠ .running) :
    u ≠ t := by
  rintro rfl
  obtain ⟨k', found', runs⟩ := h.task
  obtain rfl := Option.some.inj (found.symm.trans found')
  exact idle runs

theorem nudge {H : TaskId → Prop} (h : w.AtWork t) (step : Nudge H w v) : v.AtWork t := by
  cases step with
  | @ask u =>
    obtain ⟨k, found, runs⟩ := h.task
    refine ⟨⟨if u = t then { k with mustCancel := true } else k, ?_, ?_⟩, h.unalarmed⟩
    · simp only [setCancel, modifyTask, List.getElem?_modify, found]
      split <;> rfl
    · split
      · exact runs
      · exact runs
  | regroup => exact ⟨h.task, h.unalarmed⟩
  | @detach u k _ found loose =>
    have other : u ≠ t := h.other found fun runs => by rw [runs] at loose; exact loose
    cases k.wait with
    | lock x => exact wake (w := w.modifySlot x _) ⟨h.task, h.unalarmed⟩ _ other
    | _ => exact h.wake _ other
  | ring set => exact h.wake _ (h.unalarmed _ set)
  | join found waits | learn found waits | hear found waits =>
    exact h.wake _ (h.other found (by simp [waits]))

theorem nudges {H : TaskId → Prop} (h : w.AtWork t) (steps : Nudges H w v) : v.AtWork t :=
  Nudges.keep (fun _ _ (h : AtWork _ t) step => h.nudge step) steps h

theorem enroll (h : w.AtWork t) (members : List TaskId) : (w.enroll t members).AtWork t := by
  obtain ⟨k, found, runs⟩ := h.task
  obtain ⟨ks, js, eq, length, task⟩ := enroll_eq w t members
  rw [eq]
  have there : t < ks.length := length ▸ (List.getElem?_eq_some_iff.1 found).1
  obtain ⟨x, more, old, watched⟩ := task t _ (List.getElem?_eq_getElem there)
  obtain rfl := Option.some.inj (found.symm.trans old)
  refine ⟨⟨ks[t], List.getElem?_eq_getElem there, ?_⟩, h.unalarmed⟩
  rw [watched]
  exact runs

end AtWork

theorem enroll_group (w : World) (t : TaskId) (members : List TaskId) :
    (w.enroll t members).groups[w.groups.length]? = some ⟨members, members.length, t, false⟩ := by
  obtain ⟨ks, js, eq, -⟩ := enroll_eq w t members
  rw [eq]
  exact List.getElem?_concat_length

/-- What comes of cancelling the tasks of the document's slot, the slot being taken away. -/
def closingReach (w : World) (doc : DocId) (s : SlotId) : Reach × World :=
  (w.removeSlot doc).2.cancellingAll (w.tasksOf s)

/-- What a closing does when its document has tasks. -/
theorem beginClose_tasks (t : TaskId) (fs : List Frame) {doc : DocId} (registered : w.slotOf? doc = some s)
    (some : w.tasksOf s ≠ []) : w.beginClose t fs doc =
      let x := (w.closingReach doc s).2
      if (w.closingReach doc s).1 = .endless then x.fail t fs .nestedTooDeep
      else (x.enroll t (w.tasksOf s)).park t (.closing doc (w.tasksOf s).length :: fs) (.group x.groups.length) := by
  obtain ⟨taken, -, -, tasks⟩ := w.removeSlot_rest doc
  have same : (Option.map Slot.tasks (w.removeSlot doc).2.slots[s]?).getD [] = w.tasksOf s := tasks s
  unfold beginClose closingReach
  generalize w.removeSlot doc = p at *
  obtain ⟨x, v⟩ := p
  obtain rfl : x = Option.some s := taken.trans registered
  simp only [same]
  have gathers : ∀ x : World, x.gather t (.closing doc (w.tasksOf s).length :: fs) (w.tasksOf s) =
      (x.enroll t (w.tasksOf s)).park t (.closing doc (w.tasksOf s).length :: fs) (.group x.groups.length) := by
    intro x
    unfold World.gather
    rw [if_neg (by simpa using some)]
    rfl
  simp only [← gathers]
  rw [if_neg (by simpa using some)]

end World
end InkPreview.Live
