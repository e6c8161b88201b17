import InkPreview.Proofs.Live.Parts.Rooms
import InkPreview.Proofs.Live.Gathering
import InkPreview.Proofs.Live.Telling
/-!
Growth. Whatever is numbered is never removed, and no subscriber has been called less often than before. Main statement:
`Flight.apply_extent`.
-/
namespace InkPreview.Live

/-- What is numbered: tasks, slots, groups, processes, pages, and the calls of each subscriber. -/
inductive Series
  | task
  | slot
  | group
  | process
  | page
  | call (i : Nat)

/-- How many there are. -/
def Extent.of (a : Extent) : Series → Nat
  | .task => a.tasks
  | .slot => a.slots
  | .group => a.groups
  | .process => a.processes
  | .page => a.pages
  | .call i => (a.calls[i]?).getD 0

/-- Where the numbers of the part stand. -/
def Inlay.place (e : Inlay) : Series → Nat → Nat
  | .task => e.task
  | .slot => e.slot
  | .group => e.group
  | .process => e.process
  | .page => e.page
  | .call i => e.call i

theorem Inlay.Room.of_places {e : Inlay} {a b : Extent} (h : ∀ k, b.of k ≠ a.of k → ∃ i, e.place k i = a.of k) :
    e.Room a b :=
  ⟨h .task, h .slot, h .group, h .process, h .page, fun i => h (.call i)⟩

namespace World
variable {ms : List Mark} {b : Bench} {i : Input} {now w v : World} {t : TaskId}

theorem next_render (g : Gallery) (doc : String) (mode : Mode) : g.next ≤ (g.render doc mode).2.2.next := by
  unfold Gallery.render
  split
  · split
    · exact Nat.le_refl _
    · exact Nat.le_succ _
  · dsimp only
    split
    · exact Nat.le_refl _
    · exact Nat.le_succ _

theorem Deed.processes (h : now.Deed w v) : w.processes.length ≤ v.processes.length ∧
    w.gallery.next ≤ v.gallery.next := by
  have kept : ∀ {x y : World}, y.extent = x.extent → x.processes.length ≤ y.processes.length ∧
    x.gallery.next ≤ y.gallery.next :=
    fun same => ⟨Nat.le_of_eq (congrArg Extent.processes same).symm, Nat.le_of_eq (congrArg Extent.pages same).symm⟩
  have same : ∀ {x y : World}, y.processes = x.processes → y.gallery = x.gallery →
      x.processes.length ≤ y.processes.length ∧ x.gallery.next ≤ y.gallery.next := fun p g => by rw [p, g]; simp
  cases h with
  | aside h =>
    cases h with
    | alike h => exact same h.processes h.gallery
    | files | call | spawn | follow => exact same rfl rfl
    | process => exact ⟨by simp [setProcess], Nat.le_refl _⟩
    | launch => exact ⟨by simp, Nat.le_refl _⟩
    | enroll =>
      obtain ⟨ks, js, eq, -⟩ := enroll_eq w _ _
      exact same (by rw [eq]) (by rw [eq])
    | stop f => exact same (cancel_nudges _ f).processes (cancel_nudges _ f).gallery
    | forestall p => exact same (cancel_nudges _ _).processes (cancel_nudges _ _).gallery
  | slots | gauge | hire => exact same rfl rfl
  | discard => exact ⟨Nat.le_refl _, Nat.le_refl _⟩
  | render => exact ⟨Nat.le_refl _, next_render _ _ _⟩
  | call => exact same rfl rfl
  | cancel => exact kept (extent_cancel _ _)

theorem Deeds.processes (h : now.Deeds w v) : w.processes.length ≤ v.processes.length ∧
    w.gallery.next ≤ v.gallery.next := by
  induction h with
  | refl => exact ⟨Nat.le_refl _, Nat.le_refl _⟩
  | tail _ step ih => exact ⟨Nat.le_trans ih.1 step.processes.1, Nat.le_trans ih.2 step.processes.2⟩

theorem Stirs.processes (h : Stirs i w v) : v.processes = w.processes ∧ v.gallery = w.gallery := by
  induction h with
  | refl => exact ⟨rfl, rfl⟩
  | tail _ step ih =>
    obtain ⟨same, same'⟩ := ih
    cases step with
    | alike h => exact ⟨h.processes.trans same, h.gallery.trans same'⟩
    | later | child | enables | dates | taken | counts | spawn => exact ⟨same, same'⟩
    | nudge h => exact ⟨(Nudges.one h).processes.trans same, (Nudges.one h).gallery.trans same'⟩
    | cancel => exact ⟨(cancel_nudges _ _).processes.trans same, (cancel_nudges _ _).gallery.trans same'⟩

theorem Flight.apply_processes (h : Flight ms b w) (i : Input) :
    w.processes.length ≤ (w.apply i).processes.length ∧ w.gallery.next ≤ (w.apply i).gallery.next := by
  have happens := w.apply_happens i
  generalize w.apply i = v at *
  cases happens with
  | @moves t fs s running =>
    obtain ⟨x, l, deeds, -, eq⟩ := h.sane.reaches running
    rw [eq, processes_land, gallery_land]
    exact deeds.processes
  | @resumes t rest =>
    obtain ⟨ks, cur, eq⟩ := resume_eq { w with queue := rest } t
    rw [eq]
    exact ⟨Nat.le_refl _, Nat.le_refl _⟩
  | forgets | launches | subscribes => exact ⟨Nat.le_refl _, Nat.le_refl _⟩
  | stirs stirred => rw [stirred.processes.1, stirred.processes.2]; exact ⟨Nat.le_refl _, Nat.le_refl _⟩

/-- Nobody has been called less often than before. -/
theorem Sane.apply_timesCalled (h : w.Sane) (i : Input) (j : Nat) : (w.calls[j]?).getD 0 ≤
    ((w.apply i).calls[j]?).getD 0 := by
  by_cases there : j < w.calls.length
  · by_cases same : (w.apply i).calls[j]? = w.calls[j]?
    · rw [same]
    · obtain ⟨rfl, y, marked⟩ := h.apply_calling i there same
      obtain ⟨t, js, fs, s, running, -⟩ := mark?_called marked
      have step : w.apply .tick = w.move t (.notifying y (j :: js) :: fs) s := tick_running running
      obtain ⟨y', ⟨t', js', fs', s', running', ends⟩, -⟩ := h.move_calling (i := j) running (by rwa [← step])
      obtain ⟨-, -, rfl⟩ : t = t' ∧ _ ∧ s = s' := by simpa [running] using running'
      by_cases calm : s = .cancelled
      · subst calm
        exact absurd (by rw [step]; rfl) same
      · obtain ⟨v, alike, eq⟩ := tick_tells running ends calm
        have raised : (w.apply .tick).calls = w.calls ∨
            (w.apply .tick).calls = w.calls.modify j fun _ => (w.calls[j]?).getD 0 + 1 := by
          rw [World.apply, eq, tellNext]
          split
          · rw [calls_tell, alike.calls]
            exact .inr rfl
          · exact .inl alike.calls
        rcases raised with still | more
        · rw [still]
        · rw [more]
          simp [there]
  · rw [List.getElem?_eq_none (Nat.not_lt.1 there)]
    exact Nat.zero_le _

/-- There is never less of anything than before. -/
theorem Flight.apply_extent (h : Flight ms b w) (given : i.IsPublic) (k : Series) : w.extent.of k ≤
    (w.apply i).extent.of k := by
  cases k with
  | task => exact h.apply_tasks given
  | slot =>
    obtain ⟨-, ages⟩ := h.sane.apply given
    show w.slots.length ≤ (w.apply i).slots.length
    rw [← seats_length, ← seats_length]
    refine Nat.le_of_not_lt fun less => ?_
    obtain ⟨c, found, -⟩ := ages _ _ (List.getElem?_eq_getElem less)
    rw [List.getElem?_eq_none (Nat.le_refl _)] at found
    cases found
  | group =>
    show w.groups.length ≤ (w.apply i).groups.length
    refine Nat.le_of_not_lt fun less => ?_
    obtain ⟨c, found, -⟩ := h.apply_nearer i _ _ (List.getElem?_eq_getElem less)
    rw [List.getElem?_eq_none (Nat.le_refl _)] at found
    cases found
  | process => exact (h.apply_processes i).1
  | page => exact (h.apply_processes i).2
  | call j => exact h.sane.apply_timesCalled i j

end World
end InkPreview.Live
