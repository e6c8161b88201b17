import InkPreview.Proofs.Live.Sane
/-!
Freshness. A subscriber is called only with an update whose slot is the one registered under its
document and whose generation is the newest of that slot. Main statement: `calls_fresh`.
-/
namespace InkPreview.Live
namespace World
variable {w v : World} {t : TaskId} {fs : List Frame} {s : Signal}

/-! ### What leaves the calls alone -/

@[simp] theorem calls_land (t : TaskId) (l : Landing) : (w.land t l).calls = w.calls :=
  land_same Nudges.calls (fun _ _ _ _ _ => rfl) w t l

/-! ### Calls -/

/-- The subscriber `i` is about to be called with an update that counts. -/
def Calling (w : World) (i : Nat) (u : Update) : Prop :=
  (∃ t js fs s, w.current = some (t, .notifying u (i :: js) :: fs, s) ∧ s.IsEnd) ∧
    w.isCurrent u.slot u.generation = true

theorem Aside.calling (h : Aside t w v) {i : Nat} (told : v.calls[i]? ≠ w.calls[i]?) :
    ∃ u, w.Calling i u := by
  cases h with
  | @call j u js fs s running ends fresh n =>
    by_cases same : j = i
    · subst same
      exact ⟨u, ⟨t, js, fs, s, running, ends⟩, fresh⟩
    · simp [same] at told
  | alike h => exact absurd (by rw [h.calls]) told
  | stop | forestall => exact absurd (by rw [stopped, (cancel_nudges _ _).calls]; rfl) told
  | @enroll members _ =>
    obtain ⟨ks, js, eq, -⟩ := enroll_eq w t members
    rw [eq] at told
    exact absurd rfl told
  | files | process | launch | spawn | follow => exact absurd rfl told

theorem asides_calling (h : Relation.ReflTransGen (Aside t) w v) {i : Nat}
    (told : v.calls[i]? ≠ w.calls[i]?) : ∃ u, w.Calling i u := by
  induction h using Relation.ReflTransGen.head_induction_on with
  | refl => exact absurd rfl told
  | @head w x step _ ih =>
    by_cases same : x.calls[i]? = w.calls[i]?
    · obtain ⟨u, running, fresh⟩ := ih (same ▸ told)
      rw [step.current] at running
      rw [isCurrent_seats step.seats] at fresh
      exact ⟨u, running, fresh⟩
    · exact step.calling same

/-- Only telling a subscriber counts as a call, whatever else is done. -/
theorem Deeds.telling {now : World} (h : now.Deeds w v) {i : Nat} (told : v.calls[i]? ≠ w.calls[i]?) :
    ∃ t u js fs s, w.current = some (t, .notifying u (i :: js) :: fs, s) ∧ s.IsEnd := by
  induction h using Relation.ReflTransGen.head_induction_on with
  | refl => exact absurd rfl told
  | @head w x step _ ih =>
    by_cases same : x.calls[i]? = w.calls[i]?
    · rw [← step.current]
      exact ih (same ▸ told)
    · cases step with
      | aside h =>
        obtain ⟨u, ⟨t, js, fs, s, running, ends⟩, -⟩ := h.calling same
        exact ⟨t, u, js, fs, s, running, ends⟩
      | slots | gauge | render | discard | call | hire => exact absurd rfl same
      | cancel _ => exact absurd (by rw [(cancel_nudges _ _).calls]) same

/-- Only an update that counts is told. -/
theorem Sane.move_calling (h : w.Sane) (running : w.current = some (t, fs, s)) {i : Nat}
    (told : (w.move t fs s).calls[i]? ≠ w.calls[i]?) : ∃ u, w.Calling i u := by
  obtain ⟨x, l, deeds, -, eq⟩ := h.reaches running
  rw [eq, calls_land] at told
  obtain ⟨t', u, js, fs', s', running', ends⟩ := deeds.telling told
  obtain ⟨rfl, rfl, rfl⟩ : t = t' ∧ fs = .notifying u (i :: js) :: fs' ∧ s = s' := by
    simpa [running] using running'
  obtain ⟨y, l', asides, -, eq'⟩ := move_leads running (isAside_cons ends rfl) h.members
  rw [← calls_land (w := x) t l, ← eq, eq', calls_land] at told
  exact asides_calling asides told

/-- A change in how often a subscriber has been called is a step that is marked as its call. -/
theorem Sane.apply_calling (h : w.Sane) (next : Input) {i : Nat} (known : i < w.calls.length)
    (told : (w.apply next).calls[i]? ≠ w.calls[i]?) :
    next = .tick ∧ ∃ u, w.mark? = some (.called i u) := by
  have happens := w.apply_happens next
  generalize applied : w.apply next = v at *
  cases happens with
  | moves running =>
    obtain ⟨u, ⟨t, js, fs, s, running', ends⟩, -⟩ := h.move_calling running told
    refine ⟨rfl, u, ?_⟩
    have told' : w.tick.calls[i]? ≠ w.calls[i]? := by rwa [tick_running running]
    rw [mark?_notifying running' fun op start => by rw [start] at ends; exact ends, if_neg told']
  | @resumes t rest =>
    refine absurd ?_ told
    obtain ⟨ks, cur, eq⟩ := resume_eq { w with queue := rest } t
    rw [eq]
  | forgets | launches => exact absurd rfl told
  | @subscribes s => exact absurd (by simp [World.subscribe, List.getElem?_append_left known]) told
  | stirs stirred => exact absurd (by rw [stirred.rest.2.2.1]) told

/-! ### Fresh updates -/

/-- The slot of the update is registered under its document, and no newer edit has come. -/
structure Fresh (w : World) (u : Update) : Prop where
  registered : w.slotOf? (.name u.doc) = some u.slot
  newest : w.generationOf u.slot = u.generation

theorem Sane.call_fresh (h : w.Sane) {i : Nat} {u : Update} (marked : w.mark? = some (.called i u)) :
    w.Fresh u := by
  obtain ⟨t, js, fs, s, running, told⟩ := mark?_called marked
  rw [tick_running running] at told
  obtain ⟨u', ⟨t', js', fs', s', running', -⟩, current⟩ := h.move_calling running told
  obtain ⟨-, ⟨⟨rfl, -⟩, -⟩, -⟩ : _ ∧ ((u = u' ∧ _) ∧ _) ∧ _ := by
    simpa [running] using running'
  obtain ⟨a, at_slot, isOpen, generation⟩ := isCurrent_iff.1 current
  obtain ⟨b, at_slot', doc⟩ := (h.running t _ s running).1.top
  obtain rfl : b = a := Option.some.inj (at_slot'.symm.trans at_slot)
  refine ⟨slotOf?_eq h.distinct at_slot isOpen (by simp [doc]), ?_⟩
  rw [seats_getElem?, Option.map_eq_some_iff] at at_slot
  obtain ⟨k, at_slot, rfl⟩ := at_slot
  simpa [generationOf, at_slot] using generation

/-- Every edit belongs to a slot that was opened for its document. -/
def Placed (ms : List Mark) (w : World) : Prop :=
  ∀ e, .edited e ∈ ms → ∃ a, w.seats[e.slot]? = some a ∧ a.doc.same e.doc

theorem Placed.mono {ms : List Mark} (h : Placed ms w) (ages : Ages w.seats v.seats) : Placed ms v := by
  intro e he
  obtain ⟨a, at_slot, same⟩ := h e he
  obtain ⟨b, at_slot', doc, -⟩ := ages e.slot a at_slot
  exact ⟨b, at_slot', doc ▸ same⟩

theorem Sane.placed (h : w.Sane) {e : Edit} (marked : w.mark? = some (.edited e)) :
    Placed [.edited e] w.tick := by
  obtain ⟨t, fs, doc, text, running, rfl⟩ := mark?_edited marked
  obtain ⟨-, -, a, at_slot, -, same, -⟩ := bumped_seats h.distinct doc text
  intro e he
  obtain rfl : e = w.editBegun doc text := by simpa using he
  refine ⟨a, ?_, same⟩
  rw [tick_running running]
  exact seats_beginEdit (w := w) t fs doc text ▸ at_slot

theorem Sane.apply_placed (h : w.Sane) {ms : List Mark} (placed : Placed ms w) {i : Input}
    (allowed : i.IsPublic) : Placed (ms ++ w.marks i) (w.apply i) := by
  intro e he
  rcases List.mem_append.1 he with old | new
  · exact placed.mono (h.apply allowed).ages e old
  · cases i with
    | tick => exact h.placed (by simpa [marks] using new) e (by simp)
    | _ => cases new

theorem run_placed (h : w.Sane) {inputs : List Input} (allowed : ∀ i ∈ inputs, i.IsPublic) :
    Placed (w.marksAlong inputs) (w.run inputs) := by
  have kept : ∀ (ms : List Mark) (v : World) (i : Input), v.Sane ∧ Placed ms v → i.IsPublic →
      (v.apply i).Sane ∧ Placed (ms ++ v.marks i) (v.apply i) :=
    fun _ _ _ h given => ⟨(h.1.apply given).sane, h.1.apply_placed h.2 given⟩
  have first : w.Sane ∧ Placed [] w := ⟨h, fun _ => nofun⟩
  exact (run_induct (I := fun ms v => v.Sane ∧ Placed ms v) kept first inputs allowed).2

/-- A slot that has been shut, as a closing leaves it. -/
def IsShut (w : World) (s : SlotId) : Prop := ∃ a, w.seats[s]? = some a ∧ a.isOpen = false

theorem IsShut.mono {s : SlotId} (h : w.IsShut s) (ages : Ages w.seats v.seats) : v.IsShut s := by
  obtain ⟨a, at_slot, shut⟩ := h
  obtain ⟨b, at_slot', -, -, kept⟩ := ages s a at_slot
  refine ⟨b, at_slot', ?_⟩
  cases isOpen : b.isOpen with
  | false => rfl
  | true => rw [kept isOpen] at shut; exact shut

theorem Fresh.not_shut {u : Update} (h : w.Fresh u) : ¬ w.IsShut u.slot := by
  rintro ⟨a, at_slot, shut⟩
  obtain ⟨b, at_slot', isOpen, -⟩ := slotOf?_seat h.registered
  obtain rfl : b = a := Option.some.inj (at_slot'.symm.trans at_slot)
  simp [shut] at isOpen

/-- A closing shuts the slot of every edit that the document has had. -/
theorem Sane.close_shuts (h : w.Sane) {doc : DocId} (running : w.current = some (t, fs, .start (.close doc)))
    {e : SlotId} {a : Seat} (at_slot : w.seats[e]? = some a) (same : a.doc.same doc) :
    w.tick.IsShut e := by
  have seats : w.tick.seats = (w.removeSlot doc).2.seats := by
    rw [tick_running running]
    exact (beginClose_leads running h.members).seats.trans (seats_cancelAll _)
  rw [IsShut, seats, (removeSlot_seats doc).2]
  cases registered : w.slotOf? doc with
  | none =>
    refine ⟨a, at_slot, ?_⟩
    cases isOpen : a.isOpen with
    | false => rfl
    | true => exact absurd same (slotOf?_none registered at_slot isOpen)
  | some s =>
    dsimp only
    rw [List.getElem?_modify, at_slot]
    by_cases here : s = e
    · exact ⟨_, rfl, by simp [here]⟩
    · refine ⟨a, by simp [here], ?_⟩
      cases isOpen : a.isOpen with
      | false => rfl
      | true =>
        have registered' := slotOf?_eq h.distinct at_slot isOpen same
        exact absurd (Option.some.inj (registered.symm.trans registered')) here

/-- Two calls for one document are for one slot with generations in order, or the slot of the first
has been shut in between. -/
theorem Fresh.ordered {u u' : Update} (sane : v.Sane) (h : w.Fresh u) (h' : v.Fresh u')
    (ages : Ages w.seats v.seats) (same : u'.doc = u.doc) :
    u'.slot = u.slot ∧ u.generation ≤ u'.generation ∨ v.IsShut u.slot ∧ u'.slot ≠ u.slot := by
  obtain ⟨a, at_slot, -, doc⟩ := slotOf?_seat h.registered
  obtain ⟨b, at_slot', doc', le, -⟩ := ages u.slot a at_slot
  cases isOpen : b.isOpen with
  | false =>
    have shut : v.IsShut u.slot := ⟨b, at_slot', isOpen⟩
    exact .inr ⟨shut, fun eq => h'.not_shut (eq ▸ shut)⟩
  | true =>
    have registered := slotOf?_eq sane.distinct at_slot' isOpen (doc' ▸ doc)
    have here : u'.slot = u.slot := by
      have := h'.registered
      rw [same, registered] at this
      exact (Option.some.inj this).symm
    have counts : ∀ {x : World} {s : SlotId} {c : Seat}, x.seats[s]? = some c →
        x.generationOf s = c.generation := by
      intro x s c found
      rw [seats_getElem?, Option.map_eq_some_iff] at found
      obtain ⟨k, found, rfl⟩ := found
      simp [generationOf, found]
    have before := h.newest
    have after := h'.newest
    rw [counts at_slot] at before
    rw [here, counts at_slot'] at after
    exact .inl ⟨here, before ▸ after ▸ le⟩

/-- After every run: whenever the number of a subscriber's calls changes, the step is marked as its
call with an update; the slot of that update is the one registered under the document and its
generation is the newest; later calls for the document are for the same slot with no lower
generation, unless the slot has been shut meanwhile; and once a closing has begun, nobody is called
for any edit of the document that came before. -/
theorem calls_fresh {start : World} (new : start.IsNew) {before : List Input}
    (allowed : ∀ i ∈ before, i.IsPublic) :
    (∀ (next : Input) (i : Nat), i < (start.run before).calls.length →
      ((start.run before).apply next).calls[i]? ≠ (start.run before).calls[i]? →
        next = .tick ∧ ∃ u, (start.run before).mark? = some (.called i u)) ∧
    (∀ i u, (start.run before).mark? = some (.called i u) → (start.run before).Fresh u ∧
      ∀ after : List Input, (∀ i ∈ after, i.IsPublic) → ∀ j v,
        ((start.run before).run after).mark? = some (.called j v) → v.doc = u.doc →
          v.slot = u.slot ∧ u.generation ≤ v.generation ∨
            ((start.run before).run after).IsShut u.slot ∧ v.slot ≠ u.slot) ∧
    (∀ t fs doc, (start.run before).current = some (t, fs, .start (.close doc)) →
      ∀ e, .edited e ∈ start.marksAlong before → e.doc.same doc →
        ∀ after : List Input, (∀ i ∈ after, i.IsPublic) → ∀ j v,
          ((start.run before).run (.tick :: after)).mark? = some (.called j v) → v.slot ≠ e.slot) := by
  obtain ⟨sane, -⟩ := new.sane.run allowed
  have placed := run_placed new.sane allowed
  generalize start.run before = w at *
  refine ⟨fun next i => sane.apply_calling next, ?_, ?_⟩
  · intro i u marked
    have fresh := sane.call_fresh marked
    refine ⟨fresh, fun after allowed' j v marked' same => ?_⟩
    obtain ⟨sane', ages⟩ := sane.run allowed'
    exact fresh.ordered sane' (sane'.call_fresh marked') ages same
  · intro t fs doc running e he same after allowed' j v marked' eq
    obtain ⟨a, at_slot, doc'⟩ := placed e he
    have shut := sane.close_shuts running at_slot (by
      simp only [DocId.same, decide_eq_true_eq] at doc' same ⊢
      exact doc'.trans same)
    obtain ⟨sane', -⟩ := sane.tick
    obtain ⟨sane'', ages⟩ := sane'.run allowed'
    have fresh : ((w.run (.tick :: after))).Fresh v := sane''.call_fresh marked'
    exact fresh.not_shut (eq ▸ shut.mono ages)

/-- The first call in a run of the small editor. -/
theorem first_call_fresh : ∃ u, (sample.run (editing "Hi" 1)).mark? = some (.called 0 u) ∧
    (sample.run (editing "Hi" 1)).Fresh u := by
  obtain ⟨marked, fresh, -⟩ := calls_fresh isNew_sample (isPublic_editing "Hi" 1)
  obtain ⟨-, u, call⟩ := marked .tick 0 (by decide) (by decide)
  exact ⟨u, call, (fresh 0 u call).1⟩

end World
end InkPreview.Live
