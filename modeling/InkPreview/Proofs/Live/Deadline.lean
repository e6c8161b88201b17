import InkPreview.Proofs.Live.Barrier
import InkPreview.Proofs.Live.Stacks
/-!
Deadlines. A task that waits for a follower until an alarm goes on for one of three reasons: it has been
cancelled, the follower has ended, or the time of the alarm has come. Main statement: `Flight.apply_abides`.
-/
namespace InkPreview.Live
namespace World

/-- The task waits for the follower `f` with no alarm before `due`; or it has been woken because it was cancelled,
or for the reason `lapsed`. -/
inductive Abides (w : World) (t f : TaskId) (due : Nat) (lapsed : Prop) : Prop
  | waits {k : Task} (found : w.tasks[t]? = some k) (wait : k.wait = .follower f)
      (alarms : ∀ a ∈ w.alarms, a.task = t → due ≤ a.due)
  | woken {k : Task} (found : w.tasks[t]? = some k) (wait : k.wait = .turn) (unalarmed : ∀ a ∈ w.alarms, a.task ≠ t)
      (reason : k.signal = .cancelled ∨ lapsed)

/-- The time has come or the follower has ended. -/
def Over (w : World) (f : TaskId) (due : Nat) : Prop := due ≤ w.clock ∨ f < w.tasks.length ∧ w.hasEnded f = true

section
variable {ms : List Mark} {b : Bench} {now w v : World} {t u f f' : TaskId} {due : Nat}
  {lapsed lapsed' : Prop} {fs : List Frame}
  {s : Signal} {i : Input}

namespace Abides

theorem spared (h : w.Abides t f due lapsed) (step : Spares t w v) : v.Abides t f due lapsed := by
  cases h with
  | waits found wait alarms =>
    obtain ⟨k', found', post, -⟩ := step.task _ found
    exact .waits found' ((congrArg Post.wait post).trans wait) fun a mem at_t => alarms a (step.alarms a mem at_t) at_t
  | woken found wait unalarmed reason =>
    obtain ⟨k', found', post, -⟩ := step.task _ found
    have signal : k'.signal = _ := congrArg Post.signal post
    exact .woken found' ((congrArg Post.wait post).trans wait)
      (fun a mem at_t => unalarmed a (step.alarms a mem at_t) at_t) (signal ▸ reason)

/-- A task that is woken waits, and is cancelled or has a reason. -/
theorem wake (h : w.Abides t f due lapsed) (u : TaskId) (s : Signal)
    (mine : u = t → (∃ k, w.tasks[t]? = some k ∧ k.wait = .follower f) → s = .cancelled ∨ lapsed)
    (apart : u = t → ∃ k, w.tasks[t]? = some k ∧ k.wait ≠ .turn) : (w.wake u s).Abides t f due lapsed := by
  by_cases here : u = t
  · subst here
    cases h with
    | @waits k found wait =>
      refine .woken (k := { k with wait := .turn, signal := s }) (by simp [found]) rfl (fun a mem at_t => ?_)
        (mine rfl ⟨k, found, wait⟩)
      have away : a.task ≠ u := by simpa using (List.mem_filter.1 mem).2
      exact away at_t
    | woken found wait =>
      obtain ⟨k', found', other⟩ := apart rfl
      obtain rfl := Option.some.inj (found.symm.trans found')
      exact absurd wait other
  · exact h.spared (.wake w s here)

/-- A task that is known to wait for something is not woken already. -/
theorem apart {k : Task} {wait : Wait} (found : w.tasks[u]? = some k) (waits : k.wait = wait) (other : wait ≠ .turn) :
    u = t → ∃ k, w.tasks[t]? = some k ∧ k.wait ≠ .turn := by
  rintro rfl
  exact ⟨k, found, waits ▸ other⟩

theorem detach (h : w.Abides t f due lapsed) {k : Task} (found : w.tasks[u]? = some k) (loose : k.wait.IsLoose) :
    (w.detach u k.wait).Abides t f due lapsed := by
  have other : k.wait ≠ .turn := by
    intro eq
    rw [eq] at loose
    exact loose
  cases wait : k.wait with
  | lock s =>
    have same : Spares t w (w.modifySlot s fun k => { k with lock := k.lock.mark u .cancelled }) := .same rfl rfl rfl
    exact (h.spared same).wake u .cancelled (fun _ _ => .inl rfl) (apart (k := k) found rfl other)
  | alarm | message _ | follower _ => exact h.wake u .cancelled (fun _ _ => .inl rfl) (apart found rfl other)
  | turn | running | group _ | ended => simp [wait, Wait.IsLoose] at loose

theorem setCancel (h : w.Abides t f due lapsed) (u : TaskId) : (w.setCancel u).Abides t f due lapsed :=
  h.spared (.modifyTask w u fun _ _ => ⟨rfl, rfl, fun _ => rfl⟩)

theorem cancel (h : w.Abides t f due lapsed) (u : TaskId) : (w.cancel u).Abides t f due lapsed :=
  cancelWith_keep (P := fun x => x.Abides t f due lapsed)
    (fun _ u h => h.setCancel u)
    (fun _ g h => h.spared ⟨fun k found => ⟨k, found, rfl, rfl, id⟩, fun _ mem _ => mem, .modify _ g fun _ => ⟨rfl, Nat.le_refl _⟩⟩)
    (fun _ _ _ h found loose => h.detach found loose) _ [] u w h

theorem park (h : w.Abides t f due lapsed) (fs : List Frame) (wait : Wait) (other : u ≠ t) :
    (w.park u fs wait).Abides t f due lapsed := by
  have yielded : (w.yield u fs wait).Abides t f due lapsed :=
    (h.spared (.other w (f := fun k => { k with frames := fs, wait, signal := .value .unit }) other)).spared
    (.same rfl rfl rfl)
  rcases park_cases w u fs wait with eq | ⟨g, -, eq⟩ | ⟨-, -, eq⟩
  · exact eq ▸ yielded
  · exact eq ▸ ((yielded.spared (.other _ other)).cancel u).setCancel u
  · exact eq ▸ (yielded.spared (.other _ other)).cancel u

theorem stopped (h : w.Abides t f due lapsed) (u f' : TaskId) : (w.stopped u f').Abides t f due lapsed := by
  have freed : (w.modifyTask f' fun k => { k with watchers := [.report u f'] }).Abides t f due lapsed :=
    h.spared (.modifyTask w f' fun _ _ => ⟨rfl, rfl, id⟩)
  exact freed.cancel f'

theorem ring (h : w.Abides t f due lapsed) {a : Alarm} (set : a.due ≤ w.clock) (up : due ≤ w.clock → lapsed) :
    (w.ring a).Abides t f due lapsed := by
  unfold World.ring
  split
  · rename_i mem
    have mem : a ∈ w.alarms := by simpa using mem
    cases h with
    | waits found wait alarms =>
      refine (Abides.waits found wait alarms).wake a.task _ (fun here _ => .inr ?_) fun _ => ⟨_, found, by simp [wait]⟩
      exact up (Nat.le_trans (alarms a mem here) set)
    | woken found wait unalarmed reason =>
      exact (Abides.woken found wait unalarmed reason).spared (.wake w _ (unalarmed a mem))
  · exact h

/-- Time passes to the next alarm, and what is due rings. -/
theorem jump (h : w.Abides t f due lapsed) (up : due ≤ w.jump.clock → lapsed) : w.jump.Abides t f due lapsed := by
  have rings : ∀ (as : List Alarm) (v : World), v.Abides t f due lapsed → (∀ a ∈ as, a.due ≤ v.clock) →
      (due ≤ (as.foldl World.ring v).clock → lapsed) → (as.foldl World.ring v).Abides t f due lapsed := by
    intro as
    induction as with
    | nil => exact fun _ h _ _ => h
    | cons a rest ih =>
      intro v h set up
      have clock : ∀ (as : List Alarm) (v : World), (as.foldl World.ring v).clock = v.clock := by
        intro as
        induction as with
        | nil => exact fun _ => rfl
        | cons a rest ih => exact fun v => (ih _).trans (ring_clock v a)
      rw [clock] at up
      refine ih _ (h.ring (set a (by simp)) up) (fun b mem => ?_) ?_
      · rw [ring_clock]
        exact set b (List.mem_cons_of_mem a mem)
      · rw [clock, ring_clock]
        exact up
  unfold World.jump at up ⊢
  split
  · exact h
  · rename_i soon next
    rw [next] at up
    exact rings _ _ (h.spared (.same rfl rfl rfl)) (fun a mem => by simpa using (List.mem_filter.1 mem).2) up

theorem join (h : w.Abides t f due lapsed) (g : GroupId) : (w.join g).Abides t f due lapsed := by
  have counted : (w.counted g).Abides t f due lapsed := h.spared (.counted w g)
  unfold World.join
  rw [← World.counted]
  dsimp only
  split
  · rename_i x at_g
    split
    · rename_i met
      simp only [Bool.and_eq_true, decide_eq_true_eq] at met
      cases found : (w.counted g).tasks[x.waiter]? with
      | none => simp [found] at met
      | some k =>
        have waits : k.wait = .group g := by simpa [found] using met.2
        refine counted.wake _ _ ?_ (apart found waits (by simp))
        rintro rfl ⟨k', found', waits'⟩
        obtain rfl := Option.some.inj (found.symm.trans found')
        rw [waits] at waits'
        cases waits'
    · exact counted
  · exact counted

theorem learn (h : w.Abides t f due lapsed) (u f' : TaskId) (told : f' = f → lapsed) :
    (w.learn u f').Abides t f due lapsed := by
  unfold World.learn
  dsimp only
  split
  · rename_i met
    cases found : w.tasks[u]? with
    | none => simp [found] at met
    | some k =>
      have waits : k.wait = .follower f' := by simpa [found] using met
      refine h.wake u _ ?_ (apart found waits nofun)
      rintro rfl ⟨k', found', waits'⟩
      obtain rfl := Option.some.inj (found.symm.trans found')
      exact .inr (told (Wait.follower.inj (waits.symm.trans waits')))
  · exact h

theorem wakeReceiver (h : w.Abides t f due lapsed) (c : ClientId) : (w.wakeReceiver c).Abides t f due lapsed := by
  unfold World.wakeReceiver
  split
  · rename_i u at_u
    obtain ⟨lt, met, -⟩ := List.findIdx?_eq_some_iff_getElem.1 at_u
    have waits : w.tasks[u].wait = .message c := by simpa using met
    refine h.wake u _ ?_ (apart (List.getElem?_eq_getElem lt) waits nofun)
    rintro rfl ⟨k', found', waits'⟩
    obtain rfl := Option.some.inj ((List.getElem?_eq_getElem lt).symm.trans found')
    rw [waits] at waits'
    cases waits'
  · exact h

end Abides

/-! ### The steps of others -/

theorem Aside.abides (step : Aside u w v) (h : w.Abides t f due lapsed) : v.Abides t f due lapsed := by
  cases step with
  | alike same => exact h.spared (.same same.tasks same.alarms same.groups)
  | files | call | process | launch => exact h.spared (.same rfl rfl rfl)
  | enroll => exact h.spared (.enroll w u _)
  | spawn | follow => exact (h.spared (.add w _)).spared (.same rfl rfl rfl)
  | stop f => exact h.stopped u f
  | forestall p =>
    have begun : (w.spawn (.follow p) fun f => [.report u f]).2.Abides t f due lapsed :=
      (h.spared (.add w _)).spared (.same rfl rfl rfl)
    exact begun.stopped u _

theorem Deeds.abides (steps : now.Deeds w v) (calls : ∀ x, now.Queued x → x ≠ t) (h : w.Abides t f due lapsed) :
    v.Abides t f due lapsed := by
  induction steps with
  | refl => exact h
  | tail _ step ih =>
    cases step with
    | aside step => exact Aside.abides step ih
    | slots | gauge | render | discard => exact ih.spared (.same rfl rfl rfl)
    | call queued => exact ih.spared (.wake _ _ (calls _ queued))
    | hire => exact (ih.spared (.add _ _)).spared (.same rfl rfl rfl)
    | cancel => exact ih.cancel _

theorem land_abides (h : w.Abides t f due lapsed) (l : Landing) (other : u ≠ t) :
    (w.land u l).Abides t f due lapsed := by
  cases l with
  | go => exact h.spared (.same rfl rfl rfl)
  | park fs wait => exact h.park fs wait other
  | turn fs => exact (h.park fs .turn other).spared (.same rfl rfl rfl)
  | timed fs wait n => exact (h.spared (.setAlarm w n other)).park fs wait other
  | finish r =>
    obtain ⟨g, -, eq⟩ := finish_eq w u r
    rw [World.land, eq]
    exact (h.spared (.other w other)).spared (.same rfl rfl rfl)

/-! ### Time -/

/-- Time does not go back. -/
theorem Deeds.clock {now : World} (h : now.Deeds w v) : v.clock = w.clock := by
  induction h with
  | refl => rfl
  | @tail x y _ step ih =>
    refine Eq.trans ?_ ih
    cases step with
    | aside h =>
      cases h with
      | alike h => exact h.clock
      | @enroll us =>
        obtain ⟨ks, js, eq, -⟩ := enroll_eq x _ us
        rw [eq]
      | stop | forestall => exact (cancel_nudges _ _).same fun _ _ _ _ _ _ => rfl
      | files | call | process | launch | spawn | follow => rfl
    | cancel => exact (cancel_nudges _ _).same fun _ _ _ _ _ _ => rfl
    | slots | gauge | render | discard | call | hire => rfl

theorem clock_land (w : World) (t : TaskId) (l : Landing) : (w.land t l).clock = w.clock :=
  land_same (fun h => h.same fun _ _ _ _ _ _ => rfl) (fun _ _ _ _ _ => rfl) w t l

theorem Stirs.clock (h : Stirs i w v) : w.clock ≤ v.clock := by
  induction h with
  | refl => exact Nat.le_refl _
  | tail _ step ih =>
    refine Nat.le_trans ih ?_
    cases step with
    | alike h => exact Nat.le_of_eq h.clock.symm
    | nudge h => exact Nat.le_of_eq (h.same fun _ _ _ _ _ _ => rfl).symm
    | cancel => exact Nat.le_of_eq ((cancel_nudges _ _).same fun _ _ _ _ _ _ => rfl).symm
    | later le => exact le
    | child | enables | dates | taken | counts | spawn => exact Nat.le_refl _

theorem Sane.apply_clock (h : w.Sane) (i : Input) : w.clock ≤ (w.apply i).clock := by
  have happens := w.apply_happens i
  generalize w.apply i = v at *
  cases happens with
  | @moves t fs s running =>
    obtain ⟨x, l, deeds, -, eq⟩ := h.reaches running
    exact Nat.le_of_eq (by rw [eq, clock_land, Deeds.clock deeds])
  | @resumes t rest =>
    obtain ⟨ks, cur, eq⟩ := resume_eq { w with queue := rest } t
    rw [eq]
  | forgets | launches | subscribes => exact Nat.le_refl _
  | stirs stirred => exact stirred.clock

/-! ### How the wait begins -/

/-- A task that had no alarm sets one and waits. -/
theorem timed_abides (there : t < w.tasks.length) (unalarmed : ∀ a ∈ w.alarms, a.task ≠ t) (fs : List Frame)
    (f n : Nat) :
    ((w.setAlarm t n).park t fs (.follower f)).Abides t f (w.clock + n) lapsed := by
  obtain ⟨k, found⟩ : ∃ k, w.tasks[t]? = some k := ⟨_, List.getElem?_eq_getElem there⟩
  have alarms : ∀ a ∈ (w.setAlarm t n).alarms, a.task = t → w.clock + n ≤ a.due := by
    intro a mem at_t
    rcases List.mem_append.1 mem with old | new
    · exact absurd at_t (unalarmed a old)
    · exact Nat.le_of_eq (by rw [List.mem_singleton.1 new])
  have yielded : ((w.setAlarm t n).yield t fs (.follower f)).Abides t f (w.clock + n) lapsed :=
    .waits (k := { k with frames := fs, wait := .follower f, signal := .value .unit })
      (by simp [World.yield, modifyTask, World.setAlarm, found]) rfl alarms
  rcases park_cases (w.setAlarm t n) t fs (.follower f) with eq | ⟨g, wait, -⟩ | ⟨-, -, eq⟩
  · exact eq ▸ yielded
  · cases wait
  · rw [eq]
    refine Abides.cancel ?_ t
    exact .waits (k := { k with frames := fs, wait := .follower f, signal := .value .unit, mustCancel := false })
      (by simp [World.yield, clearCancel, modifyTask, World.setAlarm, found]) rfl alarms

/-! ### Inputs -/

theorem Flight.apply_over (h : Flight ms b w) {i : Input} (allowed : i.IsPublic) (lapsed : w.Over f due) :
    (w.apply i).Over f due := by
  rcases lapsed with le | ⟨there, ceased⟩
  · exact .inl (Nat.le_trans le (h.sane.apply_clock i))
  · refine .inr ⟨Nat.lt_of_lt_of_le there (h.apply_tasks allowed), ?_⟩
    have given : ∀ j ∈ [i], j.IsPublic := by simpa using allowed
    exact h.run_ended there ceased given

/-- A task that learns of the end of another learns of it when that has ended. -/
theorem reported_ended (balanced : w.ledger.Balanced) {rest : List Job} (queue : w.queue = .report u f :: rest) :
    f < w.tasks.length ∧ w.hasEnded f = true := by
  have told : .report u f ∈ w.ledger.notices := by simp [ledger, queue, Job.isNotice]
  obtain ⟨there, ended⟩ := balanced.told _ told f rfl
  exact ⟨there, by rw [hasEnded_eq, ended]; rfl⟩

/-- A task that waits for a follower takes no step itself, and is told of the end of nobody else. -/
theorem Flight.tick_abides (h : Flight ms b w) (balanced : w.ledger.Balanced) {k : Task} (found : w.tasks[t]? = some k)
    (wait : k.wait = .follower f) (alarms : ∀ a ∈ w.alarms, a.task = t → due ≤ a.due)
    (ended : f < w.tasks.length ∧ w.hasEnded f = true → lapsed) : w.tick.Abides t f due lapsed := by
  have idle : k.wait ≠ .running := by simp [wait]
  have abides : w.Abides t f due lapsed := .waits found wait alarms
  cases running : w.current with
  | some c =>
    obtain ⟨u, fs, s⟩ := c
    have other : u ≠ t := by
      rintro rfl
      exact h.not_current found idle fs s running
    obtain ⟨x, l, deeds, -, eq⟩ := h.sane.reaches running
    rw [(tick_running running).trans eq]
    exact land_abides (Deeds.abides deeds (h.uncalled found idle (by simp [wait])) abides) l other
  | none =>
    cases queue : w.queue with
    | nil =>
      rw [tick_idle running queue]
      exact abides
    | cons j rest =>
      rw [tick_job running queue]
      have taken : ({ w with queue := rest } : World).Abides t f due lapsed := abides.spared (.same rfl rfl rfl)
      cases j with
      | resume u => exact taken.spared (.resume _ found fun turn => by cases wait.symm.trans turn)
      | forget s u => exact taken.spared (.same rfl rfl rfl)
      | joined g => exact taken.join g
      | report u f' =>
        refine taken.learn u f' ?_
        rintro rfl
        exact ended (reported_ended balanced queue)

theorem Abides.arrive (h : w.Abides t f due lapsed) (c : ClientId) (x : Incoming) :
    (w.arrive c x).Abides t f due lapsed := by
  unfold World.arrive
  split
  · exact h
  · split
    · exact h
    · refine Abides.wakeReceiver (w := w.modifyConnection c _) ?_ c
      exact h.spared (.same rfl rfl rfl)

/-- What comes from outside wakes a task that waits for a follower only when it is due, or to cancel it. -/
theorem Abides.outside (h : w.Abides t f due lapsed) (other : i ≠ .tick) (up : due ≤ (w.apply i).clock → lapsed) :
    (w.apply i).Abides t f due lapsed := by
  cases i with
  | tick => exact absurd rfl other
  | jump =>
    simp only [World.apply] at up ⊢
    split
    · rename_i quiescent
      rw [if_pos quiescent] at up
      exact h.jump up
    · exact h
  | ring u =>
    simp only [World.apply, ringTask] at up ⊢
    split
    · rename_i a found
      rw [found] at up
      simp only [dueAlarm?, Option.filter_eq_some_iff] at found
      exact h.ring (by simpa using found.2) (by simpa using up)
    · exact h
  | begin op =>
    refine h.spared ?_
    simp only [World.apply]
    split
    · exact (Spares.add w _).trans (.same rfl rfl rfl)
    · exact .same rfl rfl rfl
  | queue op => exact (h.spared (.add w _)).spared (.same rfl rfl rfl)
  | cancel u =>
    simp only [World.apply]
    split
    · exact h.cancel u
    · exact h
  | welcome c path =>
    refine h.spared ?_
    simp only [World.apply, welcome]
    split
    · exact (Spares.add w _).trans (.same rfl rfl rfl)
    · exact .same rfl rfl rfl
  | arrive c x => exact h.arrive c x
  | pass | find | compiler | connect | breakLink | enableMetrics | setTime | subscribe =>
    exact h.spared (.same rfl rfl rfl)

/-- Whatever happens, a task that waits for a follower until a time goes on waiting, or has a reason to go on. -/
theorem Flight.apply_abides (h : Flight ms b w) (balanced : w.ledger.Balanced) {i : Input} (allowed : i.IsPublic)
    (abides : w.Abides t f due (w.Over f due)) : (w.apply i).Abides t f due ((w.apply i).Over f due) ∨
      ∃ fs s, (w.apply i).current = some (t, fs, s) ∧ (s = .cancelled ∨ (w.apply i).Over f due) := by
  have later : w.Over f due → (w.apply i).Over f due := h.apply_over allowed
  cases abides with
  | @woken k found turn unalarmed reason =>
    rcases h.apply_turn i found turn with stays | ⟨-, -, running⟩
    · obtain ⟨k', found', post, -⟩ := stays.task
      have signal : k'.signal = k.signal := congrArg Post.signal post
      exact .inl (.woken found' ((congrArg Post.wait post).trans turn) stays.unalarmed (signal ▸ reason.imp id later))
    · refine .inr ⟨_, _, running, ?_⟩
      split
      · exact .inl rfl
      · exact reason.imp id later
  | waits found wait alarms =>
    refine .inl ?_
    by_cases tick : i = .tick
    · subst tick
      exact h.tick_abides balanced found wait alarms fun ended => later (.inr ended)
    · exact Abides.outside (.waits found wait alarms) tick .inl

end
end World
end InkPreview.Live
