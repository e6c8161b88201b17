import InkPreview.Proofs.Live.Counting
import InkPreview.Proofs.Live.Gathering
/-!
Interruption. The task of an edit starts no process before its quiet time is over, and none at all if
the document is closed before that or edited again. Main statement: `Flight.interrupted`.
-/
namespace InkPreview.Live

/-- The task waits for quiet, or is about to. -/
def Post.IsResting (p : Post) : Prop :=
  (∃ r, .quiet r ∈ p.frames) ∨ p.frames = [] ∧ p.wait ≠ .ended ∧ ∃ r, p.signal = .start (.background r)

/-- Where a task is that waits for quiet, or is about to. -/
theorem Stage.resting {ms : List Mark} {b : Bench} {t : TaskId} {p : Post} (h : Stage ms b t p)
    (resting : p.IsResting) : (∃ r, p.frames = [.quiet r]) ∧ (p.wait = .alarm ∨ p.signal.IsCalm ∧ p.wait.IsUp) ∨
      p.frames = [] ∧ (∃ r, p.signal = .start (.background r)) ∧ p.wait.IsUp := by
  cases h with
  | plain free other =>
    rcases resting with ⟨r, mem⟩ | ⟨-, -, r, start⟩
    · cases free _ mem
    · exact absurd start (other r)
  | fresh _ _ up => exact .inr ⟨rfl, ⟨_, rfl⟩, up⟩
  | finished =>
    rcases resting with ⟨r, mem⟩ | ⟨-, awake, -⟩
    · cases mem
    · exact absurd rfl awake
  | quiet => exact .inl ⟨⟨_, rfl⟩, .inl rfl⟩
  | rested _ _ _ up => exact .inl ⟨⟨_, rfl⟩, .inr ⟨trivial, up⟩⟩
  | dropped up => exact .inl ⟨⟨_, rfl⟩, .inr ⟨trivial, up⟩⟩
  | queueing | called | leaving | asked => simp [Post.IsResting] at resting
  | holding _ compiles =>
    rcases resting with ⟨r, mem⟩ | ⟨none, -⟩
    · rcases List.mem_append.1 mem with above | here
      · cases compiles.plain _ above
      · cases List.mem_singleton.1 here
    · simp at none

/-- A running task is told to begin the work behind an edit only with nothing on its stack. -/
theorem Stage.begins {ms : List Mark} {b : Bench} {t : TaskId} {fs : List Frame} {r : Request}
    (h : Stage ms b t ⟨fs, .start (.background r), .running⟩) : fs = [] := by
  cases h with
  | plain _ other => exact absurd rfl (other r)
  | fresh => rfl
  | holding _ compiles => cases compiles <;> rename_i ends <;> exact ends.elim

namespace World

section
variable {ms : List Mark} {b : Bench} {w v : World} {t u : TaskId} {fs : List Frame} {s : Signal}
  {l : Landing} {ks : List Slot} {q : Post} {k : Task}

/-! ### Nobody rests again -/

theorem go_ends {gs fs' : List Frame} {r : Request} (ends : s.IsEnd) : Landing.go gs s ≠ .go fs'
    (.start (.background r)) := by
  intro eq
  obtain ⟨-, rfl⟩ := Landing.go.inj eq
  exact ends

/-- A task that neither rests nor is about to does not come to rest. -/
theorem Next.unrested (h : Next w t fs s l ks) (subscribers : ∀ s ∈ w.subscribers, s.IsPublic)
    (fits : AllFit w.seats fs) (busy : ∀ f ∈ fs, ∀ r, f ≠ .quiet r) (other : ∀ r, s ≠ .start (.background r)) :
    (∀ f ∈ l.frames, ∀ r, f ≠ .quiet r) ∧ ∀ fs' r, l ≠ .go fs' (.start (.background r)) := by
  have kept : Frame.Kept w.subscribers fun f => ∀ r, f ≠ .quiet r := by
    refine ⟨?_, fun _ _ _ _ => nofun, fun _ _ _ _ _ _ _ _ _ => nofun, fun _ _ _ _ _ _ => nofun⟩
    rintro _ simple r rfl
    exact simple
  have below : ∀ {f : Frame} {gs : List Frame}, (∀ g ∈ f :: gs, ∀ r, g ≠ .quiet r) → ∀ g ∈ gs, ∀ r, g ≠ .quiet r :=
    fun busy g mem => busy g (List.mem_cons_of_mem _ mem)
  cases h with
  | turn _ turn =>
    have asked : ∀ i u todo, .acting i u todo ∈ fs → ∀ op, .ask op ∈ todo → op.IsPublic :=
      fun i u todo mem op asks => (fits _ mem).2 _ asks
    obtain ⟨frames, given⟩ := turn.keeps kept subscribers asked busy
    refine ⟨frames, ?_⟩
    rintro fs' r rfl
    rcases given with given | ⟨p, eq⟩
    · cases given
    · cases eq
  | edits => exact ⟨all_cons nofun (all_cons nofun busy), fun _ _ => go_ends trivial⟩
  | misnamed => exact ⟨busy, fun _ _ => go_ends trivial⟩
  | closes h =>
    cases h with
    | through hs => exact ⟨busy, fun _ _ => go_ends hs⟩
    | waits => exact ⟨all_cons nofun busy, nofun⟩
  | @rests _ r => exact absurd rfl (other r)
  | @abandons _ r | @quieted _ r => exact absurd rfl (busy _ List.mem_cons_self r)
  | called h =>
    rcases h with ⟨-, rfl⟩ | ⟨-, rfl⟩
    · exact ⟨below busy, fun _ _ => go_ends trivial⟩
    · exact ⟨all_cons nofun (below busy), nofun⟩
  | settles => exact ⟨all_cons nofun (below busy), fun _ _ => go_ends trivial⟩
  | leaves | drops | lets | breaks => exact ⟨below busy, fun _ _ => go_ends trivial⟩

/-- What a task is at that has landed. -/
theorem land_at (flight : Flight ms b (w.land t l)) (there : t < w.tasks.length) :
    ∃ q, (w.land t l).post? t = some q ∧ q.frames = l.frames ∧
      (q.signal.IsCalm ∨ q.wait = .ended ∨ ∃ fs s, l = .go fs s ∧ q.signal = s) := by
  have parked : ∀ {x : World} (fs : List Frame) (wait : Wait), t < x.tasks.length →
      ∃ q, (x.park t fs wait).post? t = some q ∧ q.frames = fs ∧ q.signal.IsCalm := by
    intro x fs wait there
    obtain ⟨s, wait', found, calm⟩ := land_post there fs wait
    exact ⟨_, found, rfl, calm⟩
  cases l with
  | go fs s => exact ⟨_, flight.post?_running rfl, rfl, .inr (.inr ⟨fs, s, rfl, rfl⟩)⟩
  | park fs wait =>
    obtain ⟨q, found, frames, calm⟩ := parked fs wait there
    exact ⟨q, found, frames, .inl calm⟩
  | turn fs =>
    obtain ⟨q, found, frames, calm⟩ := parked fs .turn there
    exact ⟨q, found, frames, .inl calm⟩
  | timed fs wait n =>
    obtain ⟨q, found, frames, calm⟩ := parked (x := w.setAlarm t n) fs wait there
    exact ⟨q, found, frames, .inl calm⟩
  | finish r =>
    have finished := finish_task r (List.getElem?_eq_getElem there)
    have post : (w.land t (.finish r)).post? t = _ :=
      (post?_other (flight.not_current finished nofun)).trans (congrArg (Option.map Task.post) finished)
    exact ⟨_, post, rfl, .inr (.inl rfl)⟩

theorem Flight.move_unrested (h : Flight ms b w) (running : w.current = some (t, fs, s))
    (unrested : ¬ Post.IsResting ⟨fs, s, .running⟩) :
    ∃ q, (w.move t fs s).post? t = some q ∧ ¬ q.IsResting := by
  have next := h.apply (i := .tick) trivial
  have stage := h.steady.midst.orderly.stage t _ (h.post?_running running)
  have busy : ∀ f ∈ fs, ∀ r, f ≠ .quiet r := by
    rintro _ mem r rfl
    exact unrested (.inl ⟨r, mem⟩)
  have other : ∀ r, s ≠ .start (.background r) := by
    rintro r rfl
    exact unrested (.inr ⟨stage.begins, nofun, r, rfl⟩)
  obtain ⟨x, l, deeds, landing, eq⟩ := h.sane.reaches running
  obtain ⟨frames, begins⟩ := landing.unrested h.sane.subscribers (h.sane.running t fs s running).1 busy other
  have there : t < x.tasks.length := Nat.lt_of_lt_of_le (h.there running) deeds.grown.length
  rw [show w.apply .tick = w.move t fs s from tick_running running, eq] at next
  rw [eq]
  obtain ⟨q, found, same, signal⟩ := land_at next there
  refine ⟨q, found, ?_⟩
  rintro (⟨r, mem⟩ | ⟨-, awake, r, start⟩)
  · exact frames _ (same ▸ mem) r rfl
  · rcases signal with calm | ceased | ⟨fs', s', landed, same⟩
    · rw [start] at calm
      exact calm
    · exact awake ceased
    · exact begins fs' r (by rw [landed, ← same, start])

/-- What has ended stays so. -/
theorem Flight.post_ended (h : Flight ms b w) {i : Input} (allowed : i.IsPublic) (found : w.post? u = some q)
    (ceased : q.wait = .ended) {q' : Post} (found' : (w.apply i).post? u = some q') : q'.wait = .ended := by
  have apart : ∀ fs s, w.current ≠ some (u, fs, s) := by
    intro fs s running
    obtain rfl := Option.some.inj ((h.post?_running running).symm.trans found)
    cases ceased
  rw [post?_other apart] at found
  obtain ⟨k, at_u, rfl⟩ := Option.map_eq_some_iff.1 found
  have firm : k.wait.IsFirm := .inr ceased
  have stays := (h.stays at_u firm).apply firm h i fun turn => by
    rw [show k.wait = .ended from ceased] at turn
    cases turn
  obtain rfl := Option.some.inj ((stays.post firm (h.apply allowed)).symm.trans found')
  exact ceased

/-- A task that does not rest does not come to rest. -/
theorem Flight.apply_unrested (h : Flight ms b w) {i : Input} (allowed : i.IsPublic)
    (found : w.post? u = some q) (unrested : ¬ q.IsResting) :
    ∃ q', (w.apply i).post? u = some q' ∧ ¬ q'.IsResting := by
  by_cases steps : w.Steps i u
  · obtain ⟨rfl, fs, s, running⟩ := steps
    obtain rfl := Option.some.inj ((h.post?_running running).symm.trans found)
    rw [show w.apply .tick = w.move u fs s from tick_running running]
    exact h.move_unrested running unrested
  · obtain ⟨q', found', rfl | ⟨idle, frames, signal⟩⟩ := h.apply_post allowed found steps
    · exact ⟨q', found', unrested⟩
    · refine ⟨q', found', ?_⟩
      rintro (⟨r, mem⟩ | ⟨none, awake, r, start⟩)
      · exact unrested (.inl ⟨r, frames ▸ mem⟩)
      · rcases signal with same | calm
        · refine unrested (.inr ⟨frames ▸ none, fun ceased => awake ?_, r, same ▸ start⟩)
          exact h.post_ended allowed found ceased found'
        · rw [start] at calm
          exact calm

/-! ### Who has started a process -/

/-- Nobody rests who has started a process. -/
def Launchers (w : World) : Prop := ∀ k ∈ w.processes, ∃ q, w.post? k.owner = some q ∧ ¬ q.IsResting

theorem Flight.apply_launchers (h : Flight ms b w) (launchers : w.Launchers) {i : Input} (allowed : i.IsPublic) :
    (w.apply i).Launchers := by
  intro k' mem
  obtain ⟨p, found⟩ := List.mem_iff_getElem?.1 mem
  rcases (h.apply_bred i).1.process p k' found with ⟨k, old, own, -⟩ | ⟨-, fs, text, running⟩
  · obtain ⟨q, at_owner, unrested⟩ := launchers k (List.mem_of_getElem? old)
    exact own ▸ h.apply_unrested allowed at_owner unrested
  · have post := h.post?_running running
    refine h.apply_unrested allowed post fun resting => ?_
    rcases (h.steady.midst.orderly.stage _ _ post).resting resting with ⟨-, alarm | ⟨calm, -⟩⟩ | ⟨-, ⟨r, start⟩, -⟩
    · cases alarm
    · exact calm
    · cases start

/-- In every state that comes about, nobody rests who has started a process. -/
theorem run_launchers (new : w.IsNew) {inputs : List Input} (allowed : ∀ i ∈ inputs, i.IsPublic) :
    (w.run inputs).Launchers := by
  have kept : ∀ (ms : List Mark) (v : World) (i : Input), Flight ms (w.bench none) v ∧ v.Launchers →
      i.IsPublic → Flight (ms ++ v.marks i) (w.bench none) (v.apply i) ∧ (v.apply i).Launchers :=
    fun _ _ i h given => ⟨h.1.apply given, h.1.apply_launchers h.2 given⟩
  have nothing : w.Launchers := by
    intro k mem
    rw [new.processes] at mem
    cases mem
  exact (run_induct (I := fun ms v => Flight ms (w.bench none) v ∧ v.Launchers) kept
    ⟨new.flight, nothing⟩ inputs allowed).2

/-! ### The end of a task that is interrupted -/

/-- The task is in the queue of runnable tasks and will be cancelled there. -/
def Struck (w : World) (u : TaskId) (fs : List Frame) : Prop :=
  ∃ k, w.Stays u k ∧ k.wait = .turn ∧ k.frames = fs ∧ (k.mustCancel = true ∨ k.signal = .cancelled)

/-- A cancellation reaches the task before it goes on, or has reached it. -/
inductive Doomed (w : World) (u : TaskId) : Prop
  | queued {fs : List Frame} (struck : w.Struck u fs) (frames : fs = [] ∨ ∃ r, fs = [.quiet r])
  | leaving {r : Request} (running : w.current = some (u, [.quiet r], .cancelled))
  | through {s : Signal} (running : w.current = some (u, [], s)) (calm : s.IsCalm)
  | finished {k : Task} (found : w.tasks[u]? = some k) (ended : k.wait = .ended)

theorem Struck.brushes (h : w.Struck u fs) (steps : Brushes u w v) : v.Struck u fs := by
  obtain ⟨k, stays, turn, rest⟩ := h
  exact ⟨k, stays.brushes (.inl turn) steps, turn, rest⟩

/-- Such a task has nothing to do but to wait for quiet. -/
theorem Doomed.running (h : w.Doomed u) (flight : Flight ms b w) (running : w.current = some (u, fs, s)) :
    fs = [] ∨ ∃ r, fs = [.quiet r] := by
  cases h with
  | queued struck =>
    obtain ⟨k, stays, turn, -⟩ := struck
    exact absurd running (stays.not_current (.inl turn) flight _ _)
  | leaving running' =>
    cases running.symm.trans running'
    exact .inr ⟨_, rfl⟩
  | through running' =>
    cases running.symm.trans running'
    exact .inl rfl
  | finished found ended => exact absurd running (flight.not_current found (by simp [ended]) _ _)

/-- Such a task begins no compile. -/
theorem Doomed.idle (h : w.Doomed u) (flight : Flight ms b w) (fs : List Frame) (text : String) :
    w.current ≠ some (u, fs, .start (.compile text)) := by
  intro running
  cases h with
  | queued struck =>
    obtain ⟨k, stays, turn, -⟩ := struck
    exact stays.not_current (.inl turn) flight _ _ running
  | leaving running' => cases running.symm.trans running'
  | through running' calm =>
    obtain rfl := (Prod.mk.inj (Prod.mk.inj (Option.some.inj (running.symm.trans running'))).2).2
    exact calm
  | finished found ended => exact flight.not_current found (by simp [ended]) _ _ running

theorem Doomed.apply (h : w.Doomed u) (flight : Flight ms b w) {i : Input} (allowed : i.IsPublic) :
    (w.apply i).Doomed u := by
  have held : ∀ {fs : List Frame} {s : Signal}, w.current = some (u, fs, s) → i ≠ .tick →
      (w.apply i).current = some (u, fs, s) := current_apply
  cases h with
  | queued struck frames =>
    obtain ⟨k, stays, turn, rfl, told⟩ := struck
    obtain ⟨k', found, post, -, asked⟩ := stays.task
    have turn' : k'.wait = .turn := (congrArg Post.wait post).trans turn
    have same : k'.frames = k.frames := congrArg Post.frames post
    have signal : k'.signal = k.signal := congrArg Post.signal post
    have told' : k'.mustCancel = true ∨ k'.signal = .cancelled := told.imp asked fun eq => signal.trans eq
    rcases flight.apply_turn i found turn' with still | ⟨-, -, running⟩
    · exact .queued ⟨k', still, turn', same, told'⟩ frames
    · have cancelled : (if k'.mustCancel = true then Signal.cancelled else k'.signal) = .cancelled := by
        split
        · rfl
        · rename_i unasked
          exact told'.resolve_left unasked
      rw [cancelled, same] at running
      rcases frames with none | ⟨r, one⟩
      · rw [none] at running
        exact .through running trivial
      · rw [one] at running
        exact .leaving running
  | leaving running =>
    by_cases tick : i = .tick
    · rw [tick, show w.apply .tick = _ from tick_running running]
      exact .through rfl (s := .value .unit) trivial
    · exact .leaving (held running tick)
  | @through s running calm =>
    by_cases tick : i = .tick
    · obtain ⟨r, step⟩ : ∃ r, w.apply .tick = w.finish u r := by
        cases s with
        | start | fault => exact calm.elim
        | value | cancelled => exact ⟨_, tick_running running⟩
      obtain ⟨k, found⟩ : ∃ k, w.tasks[u]? = some k := ⟨_, List.getElem?_eq_getElem (flight.there running)⟩
      rw [tick, step]
      exact .finished (finish_task r found) rfl
    · exact .through (held running tick) calm
  | finished found ended =>
    have only : ∀ j ∈ [i], j.IsPublic := by simpa using allowed
    obtain ⟨⟨k', found', -, wait, -⟩, -⟩ := flight.stays_ended found ended only
    exact .finished found' wait

/-- A task that has started no process and is interrupted starts none. -/
theorem Doomed.starts_none (h : w.Doomed u) (flight : Flight ms b w) (none : ∀ k ∈ w.processes, k.owner ≠ u)
    {inputs : List Input} (allowed : ∀ i ∈ inputs, i.IsPublic) :
    ∀ k ∈ (w.run inputs).processes, k.owner ≠ u := by
  have kept : ∀ (ns : List Mark) (v : World) (i : Input),
      (Flight ns b v ∧ v.Doomed u) ∧ (∀ k ∈ v.processes, k.owner ≠ u) → i.IsPublic →
      (Flight (ns ++ v.marks i) b (v.apply i) ∧ (v.apply i).Doomed u) ∧
        ∀ k ∈ (v.apply i).processes, k.owner ≠ u := by
    rintro ns v i ⟨⟨flight, doomed⟩, none⟩ given
    refine ⟨⟨flight.apply given, doomed.apply flight given⟩, fun k' mem own => ?_⟩
    obtain ⟨p, found⟩ := List.mem_iff_getElem?.1 mem
    rcases (flight.apply_bred i).1.process p k' found with ⟨k, old, same, -⟩ | ⟨-, fs, text, running⟩
    · exact none k (List.mem_of_getElem? old) (same.symm.trans own)
    · exact doomed.idle flight fs text (own ▸ running)
  exact (run_induct (I := fun ns v => (Flight ns b v ∧ v.Doomed u) ∧ ∀ k ∈ v.processes, k.owner ≠ u) kept
    ⟨⟨flight, h⟩, none⟩ inputs allowed).2

/-! ### Who is interrupted -/

/-- The task waits for an alarm, or has been woken since. -/
inductive Dozes (w : World) (u : TaskId) (fs : List Frame) : Prop
  | asleep {k : Task} (found : w.tasks[u]? = some k) (frames : k.frames = fs) (wait : k.wait = .alarm)
  | woken {k : Task} (stays : w.Stays u k) (frames : k.frames = fs) (wait : k.wait = .turn)

namespace Dozes

theorem wake (found : w.tasks[u]? = some k) (frames : k.frames = fs) (s : Signal) : (w.wake u s).Dozes u fs := by
  have woken : (w.wake u s).tasks[u]? = some { k with wait := .turn, signal := s } := by simp [found]
  refine .woken ⟨⟨_, woken, rfl, rfl, id⟩, fun a mem => ?_⟩ frames rfl
  simpa using (List.mem_filter.1 mem).2

theorem nudge {H : TaskId → Prop} (h : w.Dozes u fs) (step : Nudge H w v) : v.Dozes u fs := by
  cases h with
  | woken stays frames wait => exact .woken (stays.nudge (.inl wait) step) frames wait
  | @asleep k found frames wait =>
    have same : ∀ {v : World}, v.tasks = w.tasks → v.Dozes u fs :=
      fun eq => .asleep (eq ▸ found) frames wait
    have reached : ∀ {v : World} (x : TaskId) (s : Signal), v.tasks = w.tasks → (v.wake x s).Dozes u fs := by
      intro v x s eq
      by_cases here : x = u
      · subst here
        exact .wake (eq ▸ found) frames s
      · exact .asleep (by simp [here, eq, found]) frames wait
    cases step with
    | @ask x =>
      refine .asleep (k := if x = u then { k with mustCancel := true } else k) ?_ ?_ ?_
      · simp only [setCancel, modifyTask, List.getElem?_modify, found]
        split <;> rfl
      · split
        · exact frames
        · exact frames
      · split
        · exact wait
        · exact wait
    | regroup => exact same rfl
    | @detach x k' => cases k'.wait <;> exact reached x _ rfl
    | ring | join | learn | hear => exact reached _ _ rfl

theorem nudges {H : TaskId → Prop} (h : w.Dozes u fs) (steps : Nudges H w v) : v.Dozes u fs :=
  steps.keep (P := fun x => x.Dozes u fs) (fun _ _ h step => h.nudge step) h

/-- To cancel such a task strikes it. -/
theorem cancel (h : w.Dozes u fs) : (w.cancel u).Struck u fs := by
  cases h with
  | @asleep k found frames wait =>
    have eq : w.cancel u = w.wake u .cancelled := by
      simp [World.cancel, cancelling, cancelWith, found, wait, detach]
    have woken : (w.wake u .cancelled).tasks[u]? = some { k with wait := .turn, signal := .cancelled } := by
      simp [found]
    rw [eq]
    refine ⟨_, ⟨⟨_, woken, rfl, rfl, id⟩, fun a mem => ?_⟩, rfl, frames, .inr rfl⟩
    simpa using (List.mem_filter.1 mem).2
  | @woken k stays frames wait =>
    obtain ⟨k', found, post, result, -⟩ := stays.task
    have wait' : k'.wait = .turn := (congrArg Post.wait post).trans wait
    have eq : w.cancel u = w.setCancel u := by
      simp [World.cancel, cancelling, cancelWith, found, wait']
    have asked : (w.setCancel u).tasks[u]? = some { k' with mustCancel := true } := by
      simp [setCancel, modifyTask, found]
    rw [eq]
    exact ⟨_, ⟨⟨_, asked, rfl, rfl, id⟩, stays.unalarmed⟩, wait', (congrArg Post.frames post).trans frames, .inl rfl⟩

theorem cancelAll (h : w.Dozes u fs) {us : List TaskId} (mem : u ∈ us) (ends : (w.cancellingAll us).1 ≠ .endless) :
    (w.cancelAll us).Struck u fs := by
  obtain ⟨before, after, rfl⟩ := List.append_of_mem mem
  have split_all : w.cancelAll (before ++ u :: after) = ((w.cancelAll before).cancel u).cancelAll after :=
    cancelEach_split ends
  rw [split_all]
  exact (h.nudges (cancelAll_nudges w before)).cancel.brushes (.nudges (cancelAll_nudges _ after))

end Dozes

/-- A resting task that does not run waits for an alarm, or has been woken since. -/
theorem Flight.dozes (h : Flight ms b w) (found : w.post? u = some q) (resting : q.IsResting)
    (apart : ∀ fs s, w.current ≠ some (u, fs, s)) : ∃ fs, w.Dozes u fs ∧ (fs = [] ∨ ∃ r, fs = [.quiet r]) := by
  have shape := (h.steady.midst.orderly.stage u q found).resting resting
  rw [post?_other apart] at found
  obtain ⟨k, at_u, rfl⟩ := Option.map_eq_some_iff.1 found
  have waits : k.wait ≠ .running := by
    intro runs
    obtain ⟨fs', s', running'⟩ := (h.steady.midst.agrees u).1 ⟨k, at_u, runs⟩
    exact apart fs' s' running'
  have turn : k.wait.IsUp → k.wait = .turn := fun up => up.resolve_right waits
  refine ⟨k.frames, ?_, shape.elim (fun quiet => .inr quiet.1) fun fresh => .inl fresh.1⟩
  rcases shape with ⟨-, alarm | ⟨-, up⟩⟩ | ⟨-, -, up⟩
  · exact .asleep at_u rfl alarm
  · exact .woken (h.stays at_u (.inl (turn up))) rfl (turn up)
  · exact .woken (h.stays at_u (.inl (turn up))) rfl (turn up)

/-- A task that rests does not run an operation of its own. -/
theorem Flight.rests_still (h : Flight ms b w) (found : w.post? t = some q) (resting : q.IsResting) {op : Op}
    (other : ∀ r, op ≠ .background r) : w.current ≠ some (t, fs, .start op) := by
  intro running
  obtain rfl := Option.some.inj ((h.post?_running running).symm.trans found)
  rcases (h.steady.midst.orderly.stage t _ found).resting resting with ⟨-, alarm | ⟨calm, -⟩⟩ | ⟨-, ⟨r, begins⟩, -⟩
  · cases alarm
  · exact calm
  · exact other r (Signal.start.inj begins)

/-- A task that rests is not the task that runs an operation. -/
theorem Flight.rests_apart (h : Flight ms b w) (found : w.post? u = some q) (resting : q.IsResting) {op : Op}
    (other : ∀ r, op ≠ .background r) (running : w.current = some (t, fs, .start op)) :
    t ≠ u ∧ ∀ fs s, w.current ≠ some (u, fs, s) := by
  have apart : t ≠ u := by
    rintro rfl
    exact h.rests_still found resting other running
  refine ⟨apart, fun fs' s' running' => apart ?_⟩
  simpa using congrArg (Option.map (·.1)) (running.symm.trans running')

/-- A resting task is interrupted by the first step of a closing of its document, if there is an end to cancelling
the slot's tasks. -/
theorem Flight.close_interrupts (h : Flight ms b w) {doc : DocId}
    (running : w.current = some (t, fs, .start (.close doc))) {x : SlotId} (registered : w.slotOf? doc = some x)
    (ends : (w.closingReach doc x).1 ≠ .endless) (mem : u ∈ w.tasksOf x) (found : w.post? u = some q)
    (resting : q.IsResting) : w.tick.Doomed u := by
  obtain ⟨other, apart⟩ := h.rests_apart found resting (by simp) running
  obtain ⟨fs', dozes, frames⟩ := h.dozes found resting apart
  obtain ⟨-, tasks, alarms, -⟩ := w.removeSlot_rest doc
  have removed : (w.removeSlot doc).2.Dozes u fs' := by
    cases dozes with
    | asleep at_u frames wait => exact .asleep (tasks ▸ at_u) frames wait
    | woken stays frames wait => exact .woken ⟨tasks ▸ stays.task, alarms ▸ stays.unalarmed⟩ frames wait
  have struck := removed.cancelAll mem ends
  rw [tick_running running, show w.move t fs _ = w.beginClose t fs doc from rfl,
    beginClose_tasks t fs registered (List.ne_nil_of_mem mem)]
  dsimp only
  rw [if_neg ends]
  exact .queued ((struck.brushes (.spares (.enroll _ t _))).brushes (.park _ _ _ other)) frames

/-- Once an edit has its number and no other edit waits for quiet any more, it does nothing to those there are. -/
theorem beginEdit_brushes (w : World) (t : TaskId) (fs : List Frame) (doc : DocId) (text : String) :
    Brushes u ((w.bumped doc).abandonPending (w.editBegun doc text).slot) (w.beginEdit t fs doc text) := by
  have delivered (v : World) (fs : List Frame) (x : SlotId) (name : String) (g : Nat) (m : Mode) :
      Brushes u v (v.deliver t fs x name g m) := by
    cases current : v.isCurrent x g with
    | false =>
      rw [deliver_stale t fs name m current]
      exact .same rfl rfl rfl
    | true =>
      obtain ⟨x, alike, eq⟩ := deliver_eq t fs name m current
      rw [eq]
      exact .same alike.tasks alike.alarms alike.groups
  by_cases named : ∃ name, doc = .name name
  · obtain ⟨name, rfl⟩ := named
    rw [beginEdit_name]
    dsimp only
    split
    · exact (Brushes.alike (.note _ _)).trans (delivered _ _ _ _ _ _)
    · have hired (v : World) (r : Request) : Brushes u v (v.startRequest r) :=
        (Brushes.spares (.add v _)).trans (.same rfl rfl rfl)
      exact ((Brushes.alike (.note _ _)).trans (hired _ _)).trans (delivered _ _ _ _ _ _)
  · rw [beginEdit_unnamed w t fs text fun name eq => named ⟨name, eq⟩]
    exact .same rfl rfl rfl

/-- A task that rests as its document is edited is interrupted by the edit. -/
theorem Flight.edit_interrupts (h : Flight ms b w) {doc : DocId} {text : String}
    (running : w.current = some (t, fs, .start (.edit doc text))) (waits : w.waiter? doc = some u)
    (found : w.post? u = some q) (resting : q.IsResting) : w.tick.Doomed u := by
  obtain ⟨-, apart⟩ := h.rests_apart found resting (by simp) running
  obtain ⟨fs', dozes, frames⟩ := h.dozes found resting apart
  let v := w.bumped doc
  let x := (w.editBegun doc text).slot
  obtain ⟨pending, out⟩ : v.slots[x]?.bind (·.pending) = some u ∧ v.hasEnded u = false := by
    have found := (pending_bumped w doc text).trans waits
    simpa [v, x] using Option.filter_eq_some_iff.1 found
  have alarms : v.alarms = w.alarms := by
    simp only [v, bumped, ensureSlot]
    cases w.slotOf? doc <;> rfl
  have bumped : (v.modifySlot x fun k => { k with pending := none }).Dozes u fs' := by
    have tasks : v.tasks = w.tasks := tasks_bumped w doc
    cases dozes with
    | asleep at_u frames wait => exact .asleep (tasks ▸ at_u) frames wait
    | woken stays frames wait => exact .woken ⟨tasks ▸ stays.task, alarms ▸ stays.unalarmed⟩ frames wait
  have gives : v.abandonPending x =
      ((v.modifySlot x fun k => { k with pending := none }).cancel u).count "debounce.abandoned" := by
    have still : (v.modifySlot x fun k => { k with pending := none }).hasEnded u = false := out
    simp [abandonPending, pending, still]
  have struck := (bumped.cancel.brushes (.alike (.count _ "debounce.abandoned"))).brushes
    (gives ▸ beginEdit_brushes w t fs doc text)
  rw [tick_running running]
  exact .queued struck frames

/-- A task that rests when a closing of its document begins starts no process. -/
theorem Flight.interrupted (h : Flight ms b w) (launchers : w.Launchers) {doc : DocId}
    (running : w.current = some (t, fs, .start (.close doc))) {x : SlotId} (registered : w.slotOf? doc = some x)
    (ends : (w.closingReach doc x).1 ≠ .endless) (mem : u ∈ w.tasksOf x) (found : w.post? u = some q)
    (resting : q.IsResting) {after : List Input}
    (allowed : ∀ i ∈ after, i.IsPublic) : ∀ k ∈ (w.run (.tick :: after)).processes, k.owner ≠ u := by
  have before : ∀ k ∈ w.processes, k.owner ≠ u := by
    rintro k started rfl
    obtain ⟨q', found', unrested⟩ := launchers k started
    obtain rfl := Option.some.inj (found.symm.trans found')
    exact unrested resting
  have next : Flight _ _ w.tick := h.apply (i := .tick) trivial
  refine (h.close_interrupts running registered ends mem found resting).starts_none next (fun k' mem' own => ?_) allowed
  obtain ⟨p, at_p⟩ := List.mem_iff_getElem?.1 mem'
  rcases (h.apply_bred .tick).1.process p k' at_p with ⟨k, old, same, -⟩ | ⟨-, fs', text, running'⟩
  · exact before k (List.mem_of_getElem? old) (same.symm.trans own)
  · cases running.symm.trans running'

end
end World
end InkPreview.Live
