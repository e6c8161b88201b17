import InkPreview.Proofs.Live.Roster
/-!
Alarms. A task sets an alarm only as it stops to wait, and none is left from before when it runs, so
no task ever has two. Main statement: `Flight.apply_lone`.
-/
namespace InkPreview.Live.World

/-- No task has two alarms. -/
def Lone (w : World) : Prop := (w.alarms.map (·.task)).Nodup

section
variable {ms : List Mark} {b : Bench} {H : TaskId → Prop} {i : Input} {now w v : World} {t : TaskId}

theorem Lone.fewer (h : w.Lone) (fewer : v.alarms.Sublist w.alarms) : v.Lone := List.Nodup.sublist (fewer.map _) h

theorem wake_fewer (w : World) (t : TaskId) (x : Signal) : (w.wake t x).alarms.Sublist w.alarms := List.filter_sublist

theorem Nudge.fewer (h : Nudge H w v) : v.alarms.Sublist w.alarms := by
  cases h with
  | ask | regroup => exact List.Sublist.refl _
  | @detach t k =>
    cases k.wait with
    | lock s => exact wake_fewer (w.modifySlot s _) t _
    | _ => exact wake_fewer w t _
  | ring | join | learn | hear => exact wake_fewer w _ _

theorem Nudges.fewer (h : Nudges H w v) : v.alarms.Sublist w.alarms :=
  h.keep (P := fun x => x.alarms.Sublist w.alarms) (fun _ _ old step => step.fewer.trans old) (List.Sublist.refl _)

theorem cancel_fewer (w : World) (t : TaskId) : (w.cancel t).alarms.Sublist w.alarms := Nudges.fewer (cancel_nudges w t)

theorem stopped_fewer (w : World) (t f : TaskId) : (w.stopped t f).alarms.Sublist w.alarms :=
  cancel_fewer (w.modifyTask f fun k => { k with watchers := [.report t f] }) f

theorem Aside.fewer (h : Aside t w v) : v.alarms.Sublist w.alarms := by
  cases h with
  | alike h => exact h.alarms ▸ List.Sublist.refl _
  | files | call | process | launch | spawn | follow => exact List.Sublist.refl _
  | enroll =>
    obtain ⟨ks, js, eq, -⟩ := enroll_eq w t _
    exact eq ▸ List.Sublist.refl _
  | stop f => exact stopped_fewer w t f
  | forestall p => exact stopped_fewer (w.spawn (.follow p) fun f => [.report t f]).2 t _

theorem Deeds.fewer (h : now.Deeds w v) : v.alarms.Sublist w.alarms := by
  induction h with
  | refl => exact List.Sublist.refl _
  | tail _ step ih =>
    refine List.Sublist.trans ?_ ih
    cases step with
    | aside h => exact h.fewer
    | slots | gauge | render | discard | hire => exact List.Sublist.refl _
    | call => exact wake_fewer _ _ _
    | cancel => exact cancel_fewer _ _

theorem park_fewer (w : World) (t : TaskId) (fs : List Frame) (wait : Wait) :
    (w.park t fs wait).alarms.Sublist w.alarms := by
  rcases park_cases w t fs wait with eq | ⟨g, -, eq⟩ | ⟨-, -, eq⟩
  · rw [eq]
    exact List.Sublist.refl _
  · rw [eq]
    exact cancel_fewer ((w.yield t fs wait).clearCancel t) t
  · rw [eq]
    exact cancel_fewer ((w.yield t fs wait).clearCancel t) t

/-- A task that lands without an alarm has at most one then. -/
theorem Lone.land (h : w.Lone) (unalarmed : ∀ a ∈ w.alarms, a.task ≠ t) (l : Landing) : (w.land t l).Lone := by
  cases l with
  | go => exact h
  | park fs wait => exact h.fewer (park_fewer w t fs wait)
  | turn fs => exact h.fewer (park_fewer w t fs .turn)
  | timed fs wait n =>
    refine Lone.fewer (w := w.setAlarm t n) ?_ (park_fewer _ t fs wait)
    have apart : t ∉ w.alarms.map (·.task) := by simpa using unalarmed
    simpa [Lone, setAlarm, List.nodup_append] using ⟨h, fun a mem same => unalarmed a mem same⟩
  | finish r =>
    obtain ⟨f, -, eq⟩ := finish_eq w t r
    rw [World.land, eq]
    exact h

theorem Stirs.fewer (h : Stirs i w v) : v.alarms.Sublist w.alarms := by
  induction h with
  | refl => exact List.Sublist.refl _
  | tail _ step ih =>
    refine List.Sublist.trans ?_ ih
    cases step with
    | alike h => exact h.alarms ▸ List.Sublist.refl _
    | later | child | enables | dates | taken | counts | spawn => exact List.Sublist.refl _
    | nudge h => exact h.fewer
    | cancel => exact cancel_fewer _ _

/-- Whatever happens, no task comes to have two alarms. -/
theorem Flight.apply_lone (h : Flight ms b w) (lone : w.Lone) (i : Input) : (w.apply i).Lone := by
  have happens := w.apply_happens i
  generalize w.apply i = v at *
  cases happens with
  | @moves t fs s running =>
    obtain ⟨x, l, deeds, -, eq⟩ := h.sane.reaches running
    have midst := h.steady.midst
    rw [running] at midst
    rw [eq]
    exact (lone.fewer deeds.fewer).land (fun a mem => midst.unalarmed a (deeds.fewer.subset mem)) l
  | @resumes t rest =>
    obtain ⟨ks, cur, eq⟩ := resume_eq { w with queue := rest } t
    rw [eq]
    exact lone
  | forgets | launches | subscribes => exact lone
  | stirs stirred => exact lone.fewer stirred.fewer

end
end InkPreview.Live.World
