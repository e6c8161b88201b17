import InkPreview.Proofs.Live.Announcing
import InkPreview.Proofs.Live.Counting
import InkPreview.Proofs.Live.Pages
import Mathlib.Data.List.Induction
/-!
Telling. The subscribers registered when an update was announced are told of it one after the other, each
once, until the update is out of date or the task that tells is cancelled; one that fails does not keep the others
from being told. Main statement: `run_telling`.
-/
namespace InkPreview.Live

/-- Who has been called with the update, in the order of the calls. -/
def callsOf (ms : List Mark) (y : Update) : List Nat :=
  ms.filterMap fun m =>
    match m with
    | .called i v => if v = y then some i else none
    | _ => none

section
variable {ms ns : List Mark} {y : Update} {base fs : List Frame} {l : Landing}

theorem callsOf_append : callsOf (ms ++ ns) y = callsOf ms y ++ callsOf ns y := List.filterMap_append

theorem mem_callsOf {j : Nat} (h : j ∈ callsOf ms y) : .called j y ∈ ms := by
  obtain ⟨m, mem, of_m⟩ := List.mem_filterMap.1 h
  cases m with
  | called i v =>
    obtain ⟨rfl, rfl⟩ : v = y ∧ i = j := by simpa using of_m
    exact mem
  | _ => cases of_m

theorem callsOf_nil (none : ∀ j, .called j y ∉ ms) : callsOf ms y = [] :=
  List.eq_nil_iff_forall_not_mem.2 fun j mem => none j (mem_callsOf mem)

namespace World
variable {w v : World} {t u : TaskId} {b : Bench} {i : Input} {s : Signal} {n : Nat} {js : List Nat}

/-! ### How many subscribers there are -/

theorem Aside.calls_length (h : Aside t w v) : v.calls.length = w.calls.length := by
  cases h with
  | alike h => rw [h.calls]
  | call => simp
  | stop | forestall => rw [stopped, (cancel_nudges _ _).calls]; rfl
  | @enroll members _ =>
    obtain ⟨ks, js, eq, -⟩ := enroll_eq w t members
    rw [eq]
  | files | process | launch | spawn | follow => rfl

theorem Deeds.calls_length {now : World} (h : now.Deeds w v) : v.calls.length = w.calls.length := by
  induction h with
  | refl => rfl
  | tail _ step ih =>
    refine Eq.trans ?_ ih
    cases step with
    | aside h => exact h.calls_length
    | cancel => rw [(cancel_nudges _ _).calls]
    | slots | gauge | render | discard | call | hire => rfl

/-- A subscriber that is added is added with the number of its calls. -/
theorem Sane.apply_calls (h : w.Sane) (i : Input) : ∃ k, (w.apply i).calls.length = w.calls.length + k ∧
    (w.apply i).subscribers.length = w.subscribers.length + k := by
  have happens := w.apply_happens i
  generalize w.apply i = v at *
  cases happens with
  | moves running =>
    obtain ⟨x, l, deeds, -, eq⟩ := h.reaches running
    exact ⟨0, by rw [eq, calls_land, deeds.calls_length]; rfl, by rw [eq, subscribers_land, deeds.subscribers]; rfl⟩
  | @resumes t rest =>
    obtain ⟨ks, cur, eq⟩ := resume_eq { w with queue := rest } t
    rw [eq]
    exact ⟨0, rfl, rfl⟩
  | forgets | launches => exact ⟨0, rfl, rfl⟩
  | subscribes => exact ⟨1, by simp [World.subscribe], by simp [World.subscribe]⟩
  | stirs stirred => exact ⟨0, by rw [stirred.rest.2.2.1]; rfl, by rw [stirred.rest.2.1]; rfl⟩

theorem run_calls (new : w.IsNew) {inputs : List Input} (allowed : ∀ i ∈ inputs, i.IsPublic) :
    (w.run inputs).calls.length = (w.run inputs).subscribers.length := by
  have kept : ∀ (ms : List Mark) (v : World) (i : Input), v.Sane ∧ v.calls.length = v.subscribers.length → i.IsPublic →
      (v.apply i).Sane ∧ (v.apply i).calls.length = (v.apply i).subscribers.length := by
    rintro ms v i ⟨sane, known⟩ given
    obtain ⟨k, calls, subscribers⟩ := sane.apply_calls i
    exact ⟨(sane.apply given).sane, by rw [calls, subscribers, known]⟩
  exact (@run_induct (fun _ v => v.Sane ∧ v.calls.length = v.subscribers.length) Input.IsPublic kept [] w
    ⟨new.sane, new.calls⟩ inputs allowed).2

/-! ### One step of a task that tells -/

theorem calls_sleep (w : World) (t : TaskId) (fs : List Frame) (micros : Int) :
    (w.sleep t fs micros).calls = w.calls := by
  unfold sleep
  split
  · exact calls_land t (.turn fs)
  · exact calls_land t (.timed fs .alarm micros.toNat)

theorem calls_act (w : World) (t : TaskId) (fs : List Frame) (j : Nat) (y : Update) (todo : List Action) :
    (w.act t fs j y todo).calls = w.calls := by
  induction todo generalizing w with
  | nil => rfl
  | cons a rest ih =>
    cases a with
    | wait micros => exact calls_sleep w t _ micros
    | edit | close | ask | fail | skip => rfl
    | report => exact ih (w.emit (.slowDone w.clock j))

/-- Who is told has been called once more. -/
theorem calls_tell (w : World) (t : TaskId) (fs : List Frame) (j : Nat) (y : Update) :
    (w.tell t fs j y).calls = w.calls.modify j fun _ => (w.calls[j]?).getD 0 + 1 := by
  unfold tell
  dsimp only
  split
  · exact calls_act _ t fs j y _
  · rfl
  · rfl

/-- What the step of a task at this frame is, unless the task has been cancelled. -/
theorem tick_tells (running : w.current = some (t, .notifying y js :: base, s)) (ends : s.IsEnd)
    (calm : s ≠ .cancelled) : ∃ v, w.Alike v ∧ w.tick = v.tellNext t base y js := by
  cases s with
  | start => exact ends.elim
  | value x => exact ⟨w, .refl w, tick_running running⟩
  | fault f => exact ⟨_, .trans (.count w "callback.errors") (.note _ (.subscriberFailed f.message)), tick_running running⟩
  | cancelled => exact absurd rfl calm

/-- The first of those that are still to be told is called, if the update counts. -/
theorem marks_telling {j : Nat} (running : w.current = some (t, .notifying y (j :: js) :: base, s)) (ends : s.IsEnd)
    (calm : s ≠ .cancelled) (current : w.isCurrent y.slot y.generation = true) (there : j < w.calls.length) :
    w.marks .tick = [.called j y] := by
  obtain ⟨v, alike, eq⟩ := tick_tells running ends calm
  have current' : v.isCurrent y.slot y.generation = true := (isCurrent_seats alike.seats _ _).trans current
  have raised : w.tick.calls[j]? ≠ w.calls[j]? := by
    rw [eq, tellNext, if_pos current', calls_tell, alike.calls]
    simp [there]
  rw [marks, mark?_notifying running fun op start => by rw [start] at ends; exact ends, if_neg raised]
  rfl

theorem marks_untelling (running : w.current = some (t, .notifying y js :: base, s)) (ends : s.IsEnd) (h : w.Sane)
    (halts : js = [] ∨ s = .cancelled ∨ w.isCurrent y.slot y.generation = false) : w.marks .tick = [] := by
  cases js with
  | nil =>
    cases s with
    | start => exact ends.elim
    | value | fault | cancelled => simp [marks, mark?, running]
  | cons j rest =>
    have same : w.tick.calls[j]? = w.calls[j]? := by
      rcases halts with none | rfl | stale
      · cases none
      · rw [tick_running running]
        rfl
      · refine not_not.1 fun told => ?_
        rw [tick_running running] at told
        obtain ⟨y', ⟨t', js', fs', s', running', -⟩, current⟩ := h.move_calling running told
        obtain ⟨-, ⟨⟨rfl, -⟩, -⟩, -⟩ : _ ∧ ((y = y' ∧ _) ∧ _) ∧ _ := by simpa [running] using running'
        simp [stale] at current
    rw [marks, mark?_notifying running fun op start => by rw [start] at ends; exact ends, if_pos same]
    rfl

/-- A subscriber is called only by a task that is back at this frame. -/
theorem Sane.called_back (h : w.Sane) {j : Nat} (marked : w.mark? = some (.called j y)) :
    ∃ t js fs s, w.current = some (t, .notifying y (j :: js) :: fs, s) ∧ s.IsEnd := by
  obtain ⟨t, js, fs, s, running, told⟩ := mark?_called marked
  rw [tick_running running] at told
  obtain ⟨y', ⟨t', js', fs', s', running', ends⟩, -⟩ := h.move_calling running told
  obtain ⟨rfl, ⟨⟨rfl, rfl⟩, rfl⟩, rfl⟩ : t = t' ∧ ((y = y' ∧ js = js') ∧ fs = fs') ∧ s = s' := by
    simpa [running] using running'
  exact ⟨t, js, fs, s, running, ends⟩

/-- A task at this frame tells the next subscriber, or goes back to the frames below the telling. -/
inductive Tells (w : World) (t : TaskId) (y : Update) (base : List Frame) (s : Signal) : List Nat → Prop
  | next {j : Nat} {js : List Nat} {more : List Frame} (marks : w.marks .tick = [.called j y])
      (stack : w.tick.stackOf t = more ++ .notifying y js :: base) (above : unheard y more = []) :
      Tells w t y base s (j :: js)
  | back {js : List Nat} (marks : w.marks .tick = []) (calm : s ≠ .cancelled)
      (halts : js = [] ∨ w.isCurrent y.slot y.generation = false)
      (now : w.tick.current = some (t, base, .value .unit)) : Tells w t y base s js
  | stopped {js : List Nat} (marks : w.marks .tick = []) (cancelled : s = .cancelled)
      (now : w.tick.current = some (t, base, .cancelled)) : Tells w t y base s js

theorem Flight.tick_telling (h : Flight ms b w) (running : w.current = some (t, .notifying y js :: base, s))
    (ends : s.IsEnd) (there : ∀ j ∈ js, j < w.calls.length) : w.Tells t y base s js := by
  obtain ⟨x, l, -, next, eq, stack⟩ := h.tick_stack running
  have landed : w.tick.current = l.now t := by rw [eq, land_current]
  have turn := next.aside_turn (isAside_cons ends rfl)
  have onto : ∀ {j : Nat} {rest : List Nat}, js = j :: rest → s ≠ .cancelled →
      w.isCurrent y.slot y.generation = true → l.Above (.notifying y rest :: base) →
      unheard y l.frames = unheard y (.notifying y rest :: base) → w.Tells t y base s js := by
    rintro j rest rfl calm current above same
    obtain ⟨more, frames⟩ := above.frames
    refine .next (marks_telling running ends calm current (there j List.mem_cons_self)) (stack.trans frames) ?_
    rw [frames, unheard_append] at same
    simpa using same
  cases turn with
  | begins => exact ends.elim
  | opens _ h => cases h
  | waits _ h => cases h
  | pops plain => exact plain.elim
  | killedNow hf => rcases hf with eq | ⟨_, eq⟩ <;> cases eq
  | faulted hf => obtain ⟨_, eq | ⟨_, eq⟩ | ⟨_, eq | eq⟩⟩ := hf <;> cases eq
  | untold => exact .stopped (marks_untelling running ends h.sane (.inr (.inl rfl))) rfl landed
  | told _ calm told =>
    cases told with
    | through => exact .back (marks_untelling running ends h.sane (.inl rfl)) calm (.inl rfl) landed
    | stale stale => exact .back (marks_untelling running ends h.sane (.inr (.inr stale))) calm (.inr stale) landed
    | script current _ acted => exact onto rfl calm current acted.above acted.unheard_eq
    | clients current => exact onto rfl calm current (List.suffix_cons _ _) (unheard_cons rfl)
    | nobody current => exact onto rfl calm current (List.suffix_refl _) rfl

/-! ### The course of an announcement -/

/-- Nobody tells of the update, which has been announced. -/
structure Hushed (ms : List Mark) (w : World) (y : Update) : Prop where
  sourced : Sourced ms w y
  none : ∀ u, unheard y (w.stackOf u) = []

/-- The task tells the first `n` subscribers of the update, above the frames `base`, and nobody else does. -/
structure Telling (ms : List Mark) (w : World) (t : TaskId) (y : Update) (base : List Frame) (n : Nat) : Prop where
  sourced : Sourced ms w y
  known : n ≤ w.calls.length
  alone : ∀ u, u ≠ t → unheard y (w.stackOf u) = []
  below : unheard y base = []
  under : ∃ more js, w.stackOf t = more ++ .notifying y js :: base ∧ unheard y more = [] ∧
    callsOf ms y ++ js = List.range n

/-- In the next step the task goes back to the frames below the telling, and nobody is called: all `n` subscribers
have been called or the update is out of date, or the task has been cancelled. -/
inductive Ceases (ms : List Mark) (w : World) (t : TaskId) (y : Update) (base : List Frame) (n : Nat) : Prop
  | back (calm : callsOf ms y = List.range n ∨ w.isCurrent y.slot y.generation = false)
      (now : w.tick.current = some (t, base, .value .unit))
  | stopped {js : List Nat} (running : w.current = some (t, .notifying y js :: base, .cancelled))
      (now : w.tick.current = some (t, base, .cancelled))

variable {ms : List Mark}

/-- A task that has nobody left to tell of an update does not tell of it. -/
theorem not_telling (silent : unheard y (w.stackOf u) = []) : w.current ≠ some (u, .notifying y js :: fs, s) := by
  intro running
  rw [stackOf_running running, unheard_told] at silent
  cases silent

theorem Hushed.apply (h : Hushed ms w y) (flight : Flight ms b w) (allowed : i.IsPublic) :
    Hushed (ms ++ w.marks i) (w.apply i) y ∧ callsOf (w.marks i) y = [] := by
  have silent : ∀ u js fs s, w.current ≠ some (u, .notifying y js :: fs, s) := fun u _ _ _ => not_telling (h.none u)
  refine ⟨⟨h.sourced.apply flight allowed, fun u => ?_⟩, callsOf_nil fun j mem => ?_⟩
  · rw [flight.apply_unheard allowed, h.none u]
    rintro - (⟨js, fs, s, running, -⟩ | ⟨base, announces⟩)
    · exact silent u js fs s running
    · exact flight.announces_new announces h.sourced
  · cases i with
    | tick =>
      obtain ⟨u, js, fs, s, running, -⟩ := mark?_called (by simpa [marks] using mem)
      exact silent u (j :: js) fs s running
    | _ => cases mem

theorem Flight.announces_telling (h : Flight ms b w) (traced : Traced ms w) (announces : w.Announces t y base)
    (known : w.calls.length = w.subscribers.length) :
    Telling (ms ++ w.marks .tick) w.tick t y base w.subscribers.length := by
  have new := h.announces_new announces
  have silent : ∀ u, unheard y (w.stackOf u) = [] := fun u => not_not.1 fun tells => new (traced.telling u y tells)
  have tells := announces
  obtain ⟨fs, s, running, spreads, now⟩ := tells
  have stack : w.tick.stackOf t = .notifying y (List.range w.subscribers.length) :: base := stackOf_running now
  have uncalled : callsOf (ms ++ w.marks .tick) y = [] := by
    refine callsOf_nil fun j mem => ?_
    rcases List.mem_append.1 mem with old | marked
    · exact new (traced.told j y old)
    · obtain ⟨u, js, fs', s', running', -⟩ := mark?_called (by simpa [marks] using marked)
      exact not_telling (silent u) running'
  refine ⟨h.announces_sourced announces, ?_, fun u other => ?_, ?_, [], _, stack, rfl, ?_⟩
  · obtain ⟨k, calls, -⟩ := h.sane.apply_calls .tick
    rw [show w.tick = w.apply .tick from rfl]
    omega
  · have same := h.apply_unheard (i := .tick) (y := y) (u := u) trivial fun _ heralds => ?_
    · exact same.trans (silent u)
    · rcases heralds with ⟨js, fs', s', running', -⟩ | ⟨base', fs', s', running', -⟩
      · exact not_telling (silent u) running'
      · exact other (Prod.mk.inj (Option.some.inj (running'.symm.trans running))).1
  · have clean := silent t
    rw [stackOf_running running] at clean
    cases h.announced announces with
    | edit running' =>
      cases running.symm.trans running'
      exact clean
    | answer => rfl
  · rw [uncalled]
    rfl

namespace Telling

theorem others (h : Telling ms w t y base n) (flight : Flight ms b w) (allowed : i.IsPublic) (other : u ≠ t) :
    unheard y ((w.apply i).stackOf u) = [] := by
  rw [flight.apply_unheard allowed, h.alone u other]
  rintro - (⟨js, fs, s, running, -⟩ | ⟨base', announces⟩)
  · exact not_telling (h.alone u other) running
  · exact flight.announces_new announces h.sourced

/-- Only what the task itself does matters to whether it goes on telling. -/
theorem keep (h : Telling ms w t y base n) (flight : Flight ms b w) (allowed : i.IsPublic)
    (under : ∃ more js, (w.apply i).stackOf t = more ++ .notifying y js :: base ∧ unheard y more = [] ∧
      callsOf (ms ++ w.marks i) y ++ js = List.range n) : Telling (ms ++ w.marks i) (w.apply i) t y base n where
  sourced := h.sourced.apply flight allowed
  known := by
    obtain ⟨k, calls, -⟩ := flight.sane.apply_calls i
    exact Nat.le_trans h.known (by omega)
  alone _ other := h.others flight allowed other
  below := h.below
  under := under

/-- Nobody but the task calls anyone. -/
theorem uncalled (h : Telling ms w t y base n) (flight : Flight ms b w)
    (aside : i = .tick → ∀ j js fs s, s.IsEnd → w.current ≠ some (t, .notifying y (j :: js) :: fs, s)) :
    callsOf (w.marks i) y = [] := by
  refine callsOf_nil fun j mem => ?_
  cases i with
  | tick =>
    obtain ⟨u, js, fs, s, running, ends⟩ := flight.sane.called_back (j := j) (y := y) (by simpa [marks] using mem)
    by_cases here : u = t
    · exact aside rfl j js fs s ends (here ▸ running)
    · exact not_telling (h.alone u here) running
  | _ => cases mem

/-- The next subscriber is called, or the task goes back. -/
theorem tells (h : Telling ms w t y base n) (flight : Flight ms b w)
    (running : w.current = some (t, .notifying y js :: base, s))
    (ends : s.IsEnd) (told : callsOf ms y ++ js = List.range n) : Telling (ms ++ w.marks .tick) w.tick t y base n ∨
      Ceases ms w t y base n ∧ Hushed (ms ++ w.marks .tick) w.tick y ∧ callsOf (w.marks .tick) y = [] := by
  have there : ∀ j ∈ js, j < w.calls.length := by
    intro j mem
    have counted : j ∈ List.range n := told ▸ List.mem_append_right _ mem
    exact Nat.lt_of_lt_of_le (List.mem_range.1 counted) h.known
  have hushed : ∀ {s' : Signal}, w.tick.current = some (t, base, s') → Hushed (ms ++ w.marks .tick) w.tick y := by
    intro s' now
    refine ⟨h.sourced.apply (i := .tick) flight trivial, fun u => ?_⟩
    by_cases here : u = t
    · rw [here, stackOf_running now, h.below]
    · exact h.others (i := .tick) flight trivial here
  cases flight.tick_telling running ends there with
  | @next j rest more marks stack above =>
    refine .inl (h.keep (i := .tick) flight trivial ⟨more, rest, stack, above, ?_⟩)
    rw [callsOf_append, marks, ← told]
    simp [callsOf]
  | back marks _ halts now =>
    refine .inr ⟨.back ?_ now, hushed now, by rw [marks]; rfl⟩
    rcases halts with rfl | stale
    · exact .inl (by simpa using told)
    · exact .inr stale
  | stopped marks cancelled now => exact .inr ⟨.stopped (cancelled ▸ running) now, hushed now, by rw [marks]; rfl⟩

/-- What a subscriber does in its call has nobody else called. -/
theorem works (h : Telling ms w t y base n) (flight : Flight ms b w) {more : List Frame}
    (running : w.current = some (t, more ++ .notifying y js :: base, s)) (above : unheard y more = [])
    (told : callsOf ms y ++ js = List.range n) (away : ¬ (more = [] ∧ s.IsEnd)) :
    Telling (ms ++ w.marks .tick) w.tick t y base n := by
  have elsewhere : ∀ js' fs s', s'.IsEnd → w.current ≠ some (t, .notifying y js' :: fs, s') := by
    intro js' fs s' ends running'
    obtain ⟨stack, rfl⟩ := Prod.mk.inj (Prod.mk.inj (Option.some.inj (running.symm.trans running'))).2
    cases more with
    | nil => exact away ⟨rfl, ends⟩
    | cons f gs =>
      obtain ⟨rfl, -⟩ := List.cons.inj stack
      rw [unheard_told] at above
      cases above
  have same := flight.apply_unheard (i := .tick) (y := y) (u := t) trivial fun _ heralds => ?_
  · obtain ⟨x, l, -, next, -, stack⟩ := flight.tick_stack running
    have past : l.Above (.notifying y js :: base) := by
      cases more with
      | nil => exact next.over fun ends => away ⟨rfl, ends⟩
      | cons f gs => exact next.below.trans (List.suffix_append _ _)
    obtain ⟨more', frames⟩ := past.frames
    have clean : unheard y more' = [] := by
      rw [show w.apply .tick = w.tick from rfl, stack, frames, stackOf_running running, unheard_append, unheard_append,
        above] at same
      exact List.append_cancel_right same
    refine h.keep (i := .tick) flight trivial ⟨more', js, stack.trans frames, clean, ?_⟩
    rw [callsOf_append, h.uncalled flight fun _ _ _ _ _ => elsewhere _ _ _, List.append_nil, told]
  · rcases heralds with ⟨js', fs, s', running', ends⟩ | ⟨base', announces⟩
    · exact elsewhere _ _ _ ends running'
    · exact flight.announces_new announces h.sourced

theorem apply (h : Telling ms w t y base n) (flight : Flight ms b w) (allowed : i.IsPublic) :
    Telling (ms ++ w.marks i) (w.apply i) t y base n ∨
      i = .tick ∧ Ceases ms w t y base n ∧ Hushed (ms ++ w.marks i) (w.apply i) y ∧ callsOf (w.marks i) y = [] := by
  obtain ⟨more, js, stack, above, told⟩ := h.under
  by_cases steps : w.Steps i t
  · obtain ⟨rfl, fs, s, running⟩ := steps
    obtain rfl : fs = more ++ .notifying y js :: base := (stackOf_running running).symm.trans stack
    by_cases home : more = [] ∧ s.IsEnd
    · obtain ⟨rfl, ends⟩ := home
      exact (h.tells flight running ends told).imp id fun ceases => ⟨rfl, ceases⟩
    · exact .inl (h.works flight running above told home)
  · refine .inl (h.keep flight allowed ⟨more, js, ?_, above, ?_⟩)
    · rw [flight.apply_stack allowed steps, stack]
    · rw [callsOf_append, h.uncalled flight fun tick j js' fs s _ running => steps ⟨tick, _, _, running⟩, List.append_nil, told]

end Telling

/-! ### Runs -/

theorem Hushed.run (h : Hushed ms w y) (flight : Flight ms b w) {inputs : List Input}
    (allowed : ∀ i ∈ inputs, i.IsPublic) : callsOf (w.marksAlong inputs) y = [] := by
  induction inputs generalizing w ms with
  | nil => rfl
  | cons i rest ih =>
    have given := allowed i List.mem_cons_self
    obtain ⟨hushed, none⟩ := h.apply flight given
    rw [marksAlong, callsOf_append, none, List.nil_append]
    exact ih hushed (flight.apply given) fun j mem => allowed j (List.mem_cons_of_mem i mem)

/-- A run leaves the task telling, or it has told until some step at which it goes back, and nobody is called any
more. -/
theorem Telling.run (h : Telling ms w t y base n) (flight : Flight ms b w) {inputs : List Input}
    (allowed : ∀ i ∈ inputs, i.IsPublic) : Telling (ms ++ w.marksAlong inputs) (w.run inputs) t y base n ∨
      ∃ xs ys, inputs = xs ++ .tick :: ys ∧ callsOf (w.marksAlong inputs) y = callsOf (w.marksAlong xs) y ∧
        (∀ zs, zs <+: xs → Telling (ms ++ w.marksAlong zs) (w.run zs) t y base n) ∧
        Ceases (ms ++ w.marksAlong xs) (w.run xs) t y base n := by
  induction inputs generalizing w ms with
  | nil => exact .inl (by simpa [marksAlong, World.run] using h)
  | cons i rest ih =>
    have given := allowed i List.mem_cons_self
    have given' : ∀ j ∈ rest, j.IsPublic := fun j mem => allowed j (List.mem_cons_of_mem i mem)
    have here : Telling (ms ++ w.marksAlong []) (w.run []) t y base n := by simpa [marksAlong, World.run] using h
    rcases h.apply flight given with telling | ⟨rfl, ceases, hushed, none⟩
    · rcases ih telling (flight.apply given) given' with after | ⟨xs, ys, rfl, calls, telling', ceases⟩
      · exact .inl (by simpa [marksAlong, World.run] using after)
      · refine .inr ⟨i :: xs, ys, rfl, ?_, fun zs shorter => ?_, ?_⟩
        · rw [marksAlong, callsOf_append, calls, marksAlong, callsOf_append]
        · cases zs with
          | nil => exact here
          | cons j zs =>
            obtain ⟨rfl, rest⟩ := List.cons_prefix_cons.1 shorter
            simpa [marksAlong, World.run] using telling' zs rest
        · simpa [marksAlong, World.run] using ceases
    · refine .inr ⟨[], rest, rfl, ?_, fun zs shorter => ?_, ?_⟩
      · show callsOf (w.marks .tick ++ (w.apply .tick).marksAlong rest) y = []
        rw [callsOf_append, none, hushed.run (flight.apply given) given']
        rfl
      · obtain rfl := List.prefix_nil.1 shorter
        exact here
      · simpa [marksAlong, World.run] using ceases

/-! ### What puts an update out of date -/

/-- The update still counts, and its document is about to be edited or closed. -/
def Outdates (w : World) (y : Update) : Prop := w.isCurrent y.slot y.generation = true ∧
  ∃ u fs op, w.current = some (u, fs, .start op) ∧ ((∃ text, op = .edit (.name y.doc) text) ∨ op = .close (.name y.doc))

/-- The running task has been told that a subscriber has failed. -/
def failure (w : World) : Nat :=
  match w.current with
  | some (_, .notifying _ _ :: _, .fault _) => 1
  | _ => 0

theorem Flight.announces_current (h : Flight ms b w) (announces : w.Announces t y base) :
    w.tick.isCurrent y.slot y.generation = true ∧ Serves w.tick.seats y.slot y.doc := by
  have next : Flight (ms ++ w.marks .tick) b w.tick := h.apply (i := .tick) trivial
  have tells := announces
  obtain ⟨-, -, -, -, now⟩ := tells
  refine ⟨?_, (next.sane.running _ _ _ now).1.top⟩
  cases h.announced announces with
  | @edit fs name text e running begun shown =>
    obtain ⟨-, -, a, at_slot, isOpen, -, generation⟩ := bumped_seats h.sane.distinct (.name name) text
    have step : w.tick = w.beginEdit t fs (.name name) text := tick_running running
    rw [← seats_beginEdit t fs, ← step, ← begun, ← shown.slot] at at_slot
    exact isCurrent_iff.2 ⟨a, at_slot, isOpen, by rw [generation, ← begun, shown.generation]⟩
  | @answer r o running current shown =>
    have seats : w.tick.seats = w.seats := by
      rcases h.sane.apply_seats .tick with same | ⟨-, t', fs, s, running', after⟩
      · exact same
      · cases running.symm.trans running'
        refine after.trans ?_
        cases o <;> rfl
    rw [isCurrent_seats seats, shown.slot, shown.generation]
    exact current

/-- After an announcement a run leaves the task telling, or it has told until some step at which it goes back, and
nobody is called any more. -/
theorem run_telling (new : w.IsNew) {before after : List Input} (allowed : ∀ i ∈ before ++ .tick :: after, i.IsPublic)
    (announces : (w.run before).Announces t y base) :
    Telling (w.marksAlong (before ++ .tick :: after)) (w.run (before ++ .tick :: after)) t y base
        (w.run before).subscribers.length ∨
      ∃ xs ys, after = xs ++ .tick :: ys ∧
        callsOf (w.marksAlong (before ++ .tick :: after)) y = callsOf (w.marksAlong (before ++ .tick :: xs)) y ∧
        (∀ zs, zs <+: xs → Telling (w.marksAlong (before ++ .tick :: zs)) (w.run (before ++ .tick :: zs)) t y base
          (w.run before).subscribers.length) ∧
        Ceases (w.marksAlong (before ++ .tick :: xs)) (w.run (before ++ .tick :: xs)) t y base
          (w.run before).subscribers.length := by
  have given : ∀ i ∈ before, i.IsPublic := fun i mem => allowed i (List.mem_append_left _ mem)
  have given' : ∀ i ∈ after, i.IsPublic := fun i mem => allowed i (by simp [mem])
  have flight := run_flight new given
  have next : Flight _ _ (w.run before).tick := flight.apply (i := .tick) trivial
  have telling := flight.announces_telling (run_traced new given) announces (run_calls new given)
  have along (xs : List Input) : w.marksAlong (before ++ .tick :: xs) =
      w.marksAlong before ++ (w.run before).marks .tick ++ (w.run before).tick.marksAlong xs := by
    rw [marksAlong_append, List.append_assoc]
    rfl
  have there (xs : List Input) : w.run (before ++ .tick :: xs) = (w.run before).tick.run xs := by
    simp [World.run, World.apply]
  simp only [along, there]
  rcases telling.run next given' with telling | ⟨xs, ys, rfl, calls, telling, ceases⟩
  · exact .inl telling
  · exact .inr ⟨xs, ys, rfl, by simp only [callsOf_append, calls], telling, ceases⟩

end World
end
end InkPreview.Live
