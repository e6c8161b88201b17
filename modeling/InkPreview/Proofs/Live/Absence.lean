import InkPreview.Proofs.Gallery
import InkPreview.Proofs.Live.SingleFlight
/-!
Absence. A document that has been closed has neither a slot nor a preview until it is edited again.
Main statements: `Flight.close_absent`, `Flight.run_absent`.
-/
namespace InkPreview.Live

/-! ### Seats -/

/-- No seat is taken for the document now. -/
def Vacant (xs : List Seat) (name : String) : Prop :=
  ∀ (s : SlotId) a, xs[s]? = some a → a.isOpen → a.doc ≠ .name name

namespace Vacant
variable {xs : List Seat} {name : String}

theorem append (h : Vacant xs name) {a : Seat} (other : a.doc ≠ .name name) : Vacant (xs ++ [a]) name := by
  intro s c found
  rcases World.getElem?_concat_iff.1 found with old | ⟨-, rfl⟩
  · exact h s c old
  · exact fun _ => other

theorem modify (h : Vacant xs name) (s : SlotId) {f : Seat → Seat}
    (kept : ∀ a, (f a).doc = a.doc ∧ ((f a).isOpen → a.isOpen)) : Vacant (xs.modify s f) name := by
  intro u c at_u isOpen
  rw [List.getElem?_modify] at at_u
  obtain ⟨a, found, rfl⟩ := Option.map_eq_some_iff.1 at_u
  by_cases here : s = u
  · rw [if_pos here] at isOpen ⊢
    obtain ⟨doc, before⟩ := kept a
    exact doc ▸ h u a found (before isOpen)
  · rw [if_neg here] at isOpen ⊢
    exact h u a found isOpen

end Vacant

namespace World

/-- The document has neither a slot nor a preview. -/
structure Absent (w : World) (name : String) : Prop where
  vacant : Vacant w.seats name
  unseen : w.gallery.previews.find? name = none

section
variable {ms : List Mark} {b : Bench} {now w v : World} {t : TaskId} {fs : List Frame} {s : Signal}
  {l : Landing} {ks : List Slot} {name : String}

theorem slotOf?_vacant (h : Vacant w.seats name) : w.slotOf? (.name name) = none := by
  cases registered : w.slotOf? (.name name) with
  | none => rfl
  | some s =>
    obtain ⟨a, at_slot, isOpen, same⟩ := slotOf?_seat registered
    exact absurd (eq_name_of_same same) (h s a at_slot isOpen)

theorem vacant_bumped (h : Vacant w.seats name) {doc : DocId} (other : doc ≠ .name name) :
    Vacant (w.bumped doc).seats name := by
  have bump : ∀ (v : World) (s : SlotId) (n : Nat), Vacant v.seats name →
      Vacant (v.modifySlot s fun k => { k with generation := n }).seats name := by
    intro v s n vacant
    have raised : (v.modifySlot s fun k => { k with generation := n }).seats =
        v.seats.modify s fun a => { a with generation := n } := map_modify v.slots fun _ => rfl
    exact raised ▸ vacant.modify s fun _ => ⟨rfl, id⟩
  unfold bumped
  cases registered : w.slotOf? doc with
  | some s =>
    rw [ensureSlot_of_some registered]
    exact bump w s _ h
  | none =>
    rw [ensureSlot_of_none registered]
    exact bump _ _ _ (seats_opened (w := w) ▸ h.append other)

/-- Only an edit of the document takes a seat for it. -/
theorem vacant_after (vacant : Vacant w.seats name) (noEdit : ∀ text, s ≠ .start (.edit (.name name) text)) :
    Vacant (w.seatsAfter s) name := by
  unfold seatsAfter
  split
  · rename_i doc text
    exact vacant_bumped vacant fun same => noEdit text (same ▸ rfl)
  · rename_i doc
    rw [(removeSlot_seats doc).2]
    split
    · exact vacant.modify _ fun _ => ⟨rfl, nofun⟩
    · exact vacant
  · exact vacant

/-! ### What leaves previews alone -/

theorem gallery_land (w : World) (t : TaskId) (l : Landing) : (w.land t l).gallery = w.gallery :=
  land_same Nudges.gallery (fun _ _ _ _ _ => rfl) w t l

theorem Aside.gallery (h : Aside t w v) : v.gallery = w.gallery := by
  cases h with
  | alike h => exact h.gallery
  | stop | forestall => exact (cancel_nudges _ _).gallery
  | @enroll members _ =>
    obtain ⟨ks, js, eq, -⟩ := enroll_eq w t members
    rw [eq]
  | files | call | process | launch | spawn | follow => rfl

theorem asides_gallery (h : Relation.ReflTransGen (Aside t) w v) : v.gallery = w.gallery := by
  induction h with
  | refl => rfl
  | tail _ step ih => exact step.gallery.trans ih

theorem Stirs.gallery {i : Input} (h : Stirs i w v) : v.gallery = w.gallery := by
  induction h with
  | refl => rfl
  | tail _ step ih =>
    refine Eq.trans ?_ ih
    cases step with
    | alike h => exact h.gallery
    | later | child | enables | dates | taken | counts | spawn => rfl
    | nudge h => exact (Nudges.one h).gallery
    | cancel => exact (cancel_nudges _ _).gallery

/-- A step that shows nothing of a document makes no preview for it. -/
theorem Deeds.unseen (h : now.Deeds w v) (unshown : ¬ now.Shows name)
    (unseen : w.gallery.previews.find? name = none) : v.gallery.previews.find? name = none := by
  induction h with
  | refl => exact unseen
  | tail _ step ih =>
    cases step with
    | aside h => exact h.gallery ▸ ih
    | slots | gauge | call | hire => exact ih
    | @render doc mode shows_ =>
      have other : doc ≠ name := fun same => unshown (same ▸ shows_)
      exact (Gallery.find?_render_other _ other mode).trans ih
    | @discard doc =>
      by_cases same : doc = name
      · exact same ▸ Previews.find?_remove _ doc
      · exact (Previews.find?_remove_other _ same).trans ih
    | @cancel u =>
      rw [(cancel_nudges _ u).gallery]
      exact ih

/-! ### Absence -/

/-- Without a seat the document is not shown, unless it is edited. -/
theorem Flight.unshown (h : Flight ms b w) (vacant : Vacant w.seats name)
    (noEdit : ∀ e, w.mark? = some (.edited e) → e.doc ≠ .name name) : ¬ w.Shows name := by
  rintro (⟨running⟩ | ⟨running, rfl, current⟩)
  · exact noEdit _ (by simp only [mark?, running]; rfl) rfl
  · obtain ⟨a, at_slot, isOpen, -⟩ := isCurrent_iff.1 current
    obtain ⟨a', at_slot', doc⟩ := (h.sane.running _ _ _ running).1.top
    obtain rfl := Option.some.inj (at_slot.symm.trans at_slot')
    exact vacant _ a at_slot isOpen doc

theorem Flight.apply_unseen (h : Flight ms b w) (absent : w.Absent name) {i : Input}
    (noEdit : ∀ e, .edited e ∈ w.marks i → e.doc ≠ .name name) :
    (w.apply i).gallery.previews.find? name = none := by
  have happens := w.apply_happens i
  generalize w.apply i = v at *
  cases happens with
  | @moves t fs s running =>
    obtain ⟨x, l, deeds, -, eq⟩ := h.sane.reaches running
    rw [eq, gallery_land]
    exact deeds.unseen (h.unshown absent.vacant fun e marked => noEdit e (by simp [marks, marked])) absent.unseen
  | @resumes t rest =>
    obtain ⟨ks, cur, eq⟩ := resume_eq { w with queue := rest } t
    rw [eq]
    exact absent.unseen
  | forgets | launches | subscribes => exact absent.unseen
  | stirs stirred => exact stirred.gallery ▸ absent.unseen

/-- An absent document stays absent, unless it is edited. -/
theorem Flight.apply_absent (h : Flight ms b w) (absent : w.Absent name) {i : Input}
    (noEdit : ∀ e, .edited e ∈ w.marks i → e.doc ≠ .name name) : (w.apply i).Absent name := by
  refine ⟨?_, h.apply_unseen absent noEdit⟩
  rcases h.sane.apply_seats i with same | ⟨rfl, t, fs, s, running, after⟩
  · exact same ▸ absent.vacant
  · rw [after]
    refine vacant_after absent.vacant fun text start => ?_
    subst start
    exact noEdit (w.editBegun (.name name) text) (by simp [marks, mark?, running]) rfl

theorem Flight.run_absent (h : Flight ms b w) (absent : w.Absent name) {inputs : List Input}
    (allowed : ∀ i ∈ inputs, i.IsPublic) (noEdit : ∀ e, .edited e ∈ w.marksAlong inputs → e.doc ≠ .name name) :
    (w.run inputs).Absent name := by
  induction inputs generalizing ms w with
  | nil => exact absent
  | cons i rest ih =>
    have first := h.apply_absent absent fun e he => noEdit e (List.mem_append_left _ he)
    exact ih (h.apply (allowed i (by simp))) first (fun j mem => allowed j (List.mem_cons_of_mem i mem))
      fun e he => noEdit e (List.mem_append_right _ he)

/-- With the first step of its closing a document is absent. -/
theorem Flight.close_absent (h : Flight ms b w)
    (running : w.current = some (t, fs, .start (.close (.name name)))) : w.tick.Absent name := by
  obtain ⟨x, l, asides, -, eq⟩ := beginClose_leads running h.sane.members
  have step : w.tick = x.land t l := (tick_running running).trans eq
  have cancelled := cancelAll_nudges (w.removeSlot (.name name)).2
    (((w.removeSlot (.name name)).1.map (w.removeSlot (.name name)).2.tasksOf).getD [])
  have seats : w.tick.seats = (w.removeSlot (.name name)).2.seats := by
    rw [step, seats_land, asides_seats asides, cancelled.seats]
  have gallery : w.tick.gallery = w.gallery.discard name := by
    rw [step, gallery_land, asides_gallery asides, cancelled.gallery]
    unfold removeSlot
    cases w.slotOf? (.name name) <;> rfl
  refine ⟨fun s a at_slot isOpen doc => ?_, gallery ▸ Previews.find?_remove _ name⟩
  rw [seats, (removeSlot_seats _).2] at at_slot
  have same : ∀ {a : Seat}, a.doc = .name name → a.doc.same (.name name) := fun eq => by simp [DocId.same, eq]
  cases registered : w.slotOf? (.name name) with
  | none =>
    rw [registered] at at_slot
    exact slotOf?_none registered at_slot isOpen (same doc)
  | some u =>
    rw [registered] at at_slot
    dsimp only at at_slot
    rw [List.getElem?_modify] at at_slot
    obtain ⟨c, found, rfl⟩ := Option.map_eq_some_iff.1 at_slot
    by_cases here : u = s
    · simp [here] at isOpen
    · simp only [here, if_false] at isOpen doc
      have one := slotOf?_eq h.sane.distinct found isOpen (same doc)
      exact here (Option.some.inj (registered.symm.trans one))

end
end World
end InkPreview.Live
