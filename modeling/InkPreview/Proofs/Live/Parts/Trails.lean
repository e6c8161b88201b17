import InkPreview.Proofs.Live.Waking
import Mathlib.Data.List.Perm.Subperm
/-!
Trails. A task that is being cancelled is on the trail, and nobody is on it twice, so the fuel for a
cancellation never gives out: more of it than there are tasks off the trail makes no difference.
Main statement: `cancelWith_enough`.
-/
namespace InkPreview.Live.World

section
variable {w : World} {t : TaskId} {trail ts : List TaskId} {fuel fuel' : Nat}
  {cancel cancel' : TaskId → World → Reach × World}

theorem cancelWith_length (fuel : Nat) (trail : List TaskId) (t : TaskId) (w : World) :
    (cancelWith fuel trail t w).2.tasks.length = w.tasks.length :=
  cancelWith_keep (P := fun v => v.tasks.length = w.tasks.length)
    (fun _ _ same => by simpa [setCancel, modifyTask] using same) (fun _ _ same => same)
    (fun _ _ _ same _ _ => by simpa using same) fuel trail t w rfl

/-- Cancelling tasks one after the other is the same by two ways to cancel one that agree as long as `P` holds. -/
theorem cancelEach_congr {P : World → Prop} (kept : ∀ t w, P w → P (cancel t w).2)
    (same : ∀ t w, P w → cancel t w = cancel' t w) (h : P w) : cancelEach cancel ts w = cancelEach cancel' ts w := by
  induction ts generalizing w with
  | nil => rfl
  | cons t rest ih =>
    have first := same t w h
    by_cases endless : (cancel t w).1 = .endless
    · rw [cancelEach_endless endless, cancelEach_endless (first ▸ endless), first]
    · rw [cancelEach_onward endless, cancelEach_onward (first ▸ endless), ih (kept t w h), first]

/-- A trail on which nobody is twice is no longer than there are tasks. -/
theorem trail_length_le (once : trail.Nodup) (known : ∀ m ∈ trail, m < w.tasks.length) :
    trail.length ≤ w.tasks.length := by
  have among : trail ⊆ List.range w.tasks.length := fun m mem => List.mem_range.2 (known m mem)
  simpa using (List.subperm_of_subset once among).length_le

/-- Fuel for all tasks that are not on the trail is enough to cancel one. -/
theorem cancelWith_enough (once : trail.Nodup) (known : ∀ m ∈ trail, m < w.tasks.length)
    (enough : w.tasks.length < trail.length + fuel) (enough' : w.tasks.length < trail.length + fuel') :
    cancelWith fuel trail t w = cancelWith fuel' trail t w := by
  induction fuel generalizing fuel' trail t w with
  | zero => exact absurd (trail_length_le once known) (Nat.not_le.2 enough)
  | succ fuel ih =>
    cases fuel' with
    | zero => exact absurd (trail_length_le once known) (Nat.not_le.2 enough')
    | succ fuel' =>
      unfold cancelWith
      cases found : w.tasks[t]? with
      | none => rfl
      | some k =>
        cases waits : k.wait with
        | group g =>
          by_cases back : t ∈ trail
          · simp only [waits, List.contains_iff_mem.2 back, if_true]
          · have there := (List.getElem?_eq_some_iff.1 found).1
            have members : cancelEach (cancelWith fuel (t :: trail)) (w.membersOf g) w =
                cancelEach (cancelWith fuel' (t :: trail)) (w.membersOf g) w := by
              refine cancelEach_congr (P := fun v => v.tasks.length = w.tasks.length)
                (fun m v same => (cancelWith_length fuel _ m v).trans same) (fun m v same => ?_) rfl
              refine ih (List.nodup_cons.2 ⟨back, once⟩) (fun m mem => ?_) ?_ ?_
              · rw [same]
                rcases List.mem_cons.1 mem with rfl | mem
                · exact there
                · exact known m mem
              · rw [same, List.length_cons]
                omega
              · rw [same, List.length_cons]
                omega
            simp only [waits, members]
        | _ => simp only [waits]

/-- More fuel than there are tasks makes no difference. -/
theorem cancelling_eq (enough : w.tasks.length < fuel) : w.cancelling t = cancelWith fuel [] t w :=
  cancelWith_enough .nil nofun (by simp) (by simpa using enough)

end
end InkPreview.Live.World
