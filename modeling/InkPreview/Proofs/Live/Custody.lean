import InkPreview.Proofs.Live.Ledger
/-!
Custody of processes. A task that starts a process waits until it has exited or has been killed, and a
follower that works for it does not end before that unless it was cancelled. Main statement:
`Flight.apply_custody`.
-/
namespace InkPreview.Live
namespace World

/-- The task has started the process, which has neither exited nor been killed. -/
def Owns (w : World) (t : TaskId) (p : ProcessId) : Prop :=
  ∃ k, w.processes[p]? = some k ∧ k.owner = t ∧ k.state = .alive

/-- The task `f` follows the process, or was cancelled while it did. -/
inductive Trails (w : World) (p : ProcessId) (f : TaskId) : Prop
  | begun {wait : Wait} (post : w.post? f = some ⟨[], .start (.follow p), wait⟩) (up : wait.IsUp)
  | following {s : Signal} {wait : Wait} (post : w.post? f = some ⟨[.following p], s, wait⟩)
      (calm : s.IsCalm) (out : w.ledger.out f = true)
  | broken (post : w.post? f = some ⟨[], .cancelled, .running⟩)
  | ended {s : Signal} (post : w.post? f = some ⟨[], s, .ended⟩) (cancelled : w.wasCancelled f = true)

/-- Places, above the frames `fs`, at which a task sees the process end or will kill it. -/
inductive Guards (w : World) (p : ProcessId) (fs : List Frame) : Post → Prop
  | begun : Guards w p fs ⟨.running p :: fs, .start (.follow p), .running⟩
  | following {s : Signal} {wait : Wait} (calm : s.IsCalm) :
      Guards w p fs ⟨.following p :: .running p :: fs, s, wait⟩
  | broken : Guards w p fs ⟨.running p :: fs, .cancelled, .running⟩
  | limited {f : TaskId} {s : Signal} {wait : Wait} (calm : s.IsCalm) (trails : w.Trails p f) :
      Guards w p fs ⟨.limited p f :: fs, s, wait⟩
  | stopping {why : KillReason} {s : Signal} {wait : Wait} (calm : s.IsCalm) :
      Guards w p fs ⟨.stoppingFollower p why :: fs, s, wait⟩

/-- The task is at such a place. -/
def Guarded (w : World) (t : TaskId) (p : ProcessId) (fs : List Frame) : Prop :=
  ∃ q, w.post? t = some q ∧ w.Guards p fs q

def Custody (w : World) : Prop := ∀ t p, w.Owns t p → ∃ fs, w.Guarded t p fs

/-- Every process is an old one, which may be over by now, or one that the running task of `now` starts
as it begins a compile. -/
structure Bred (now : World) (xs ys : List Process) : Prop where
  length : xs.length ≤ ys.length
  process : ∀ (p : ProcessId) k', ys[p]? = some k' →
    (∃ k, xs[p]? = some k ∧ k'.owner = k.owner ∧ (k'.state = .alive → k.state = .alive) ∧ k'.child = k.child) ∨
      xs.length ≤ p ∧ ∃ fs text, now.current = some (k'.owner, fs, .start (.compile text))

namespace Bred
variable {now : World} {xs ys zs : List Process}

theorem refl (xs : List Process) : Bred now xs xs :=
  ⟨Nat.le_refl _, fun _ k found => .inl ⟨k, found, rfl, id, rfl⟩⟩

theorem of_eq (h : ys = xs) : Bred now xs ys := by
  rw [h]
  exact refl xs

theorem trans (h : Bred now xs ys) (h' : Bred now ys zs) : Bred now xs zs := by
  refine ⟨Nat.le_trans h.length h'.length, fun p k'' found => ?_⟩
  rcases h'.process p k'' found with ⟨k', found', own', alive', child'⟩ | ⟨new, running⟩
  · rcases h.process p k' found' with ⟨k, found, own, alive, child⟩ | ⟨new, running⟩
    · exact .inl ⟨k, found, own'.trans own, fun now => alive (alive' now), child'.trans child⟩
    · exact .inr ⟨new, own' ▸ running⟩
  · exact .inr ⟨Nat.le_trans h.length new, running⟩

theorem modify (xs : List Process) (p : ProcessId) {f : Process → Process} (own : ∀ k, (f k).owner = k.owner)
    (alive : ∀ k, (f k).state = .alive → k.state = .alive) (child : ∀ k, (f k).child = k.child) :
    Bred now xs (xs.modify p f) := by
  refine ⟨by simp, fun i k' found => .inl ?_⟩
  simp only [List.getElem?_modify, Option.map_eq_map, Option.map_eq_some_iff] at found
  obtain ⟨k, found, rfl⟩ := found
  refine ⟨k, found, ?_⟩
  split
  · exact ⟨own k, alive k, child k⟩
  · exact ⟨rfl, id, rfl⟩

/-- An old process is run as it was. -/
theorem old (h : Bred now xs ys) {p : ProcessId} {k : Process} (found : xs[p]? = some k) :
    ∃ k', ys[p]? = some k' ∧ k'.child = k.child := by
  have lt := (List.getElem?_eq_some_iff.1 found).1
  have found' := List.getElem?_eq_getElem (Nat.lt_of_lt_of_le lt h.length)
  rcases h.process p _ found' with ⟨k', at_p, -, -, child⟩ | ⟨new, -⟩
  · obtain rfl := Option.some.inj (found.symm.trans at_p)
    exact ⟨_, found', child⟩
  · exact absurd lt (Nat.not_lt.2 new)

theorem append (xs : List Process) {k : Process}
    (running : ∃ fs text, now.current = some (k.owner, fs, .start (.compile text))) : Bred now xs (xs ++ [k]) := by
  refine ⟨by simp, fun p k' found => ?_⟩
  rcases getElem?_concat_iff.1 found with old | ⟨rfl, rfl⟩
  · exact .inl ⟨k', old, rfl, id, rfl⟩
  · exact .inr ⟨Nat.le_refl _, running⟩

end Bred

section
variable {ms : List Mark} {b : Bench} {w v x : World} {t u f : TaskId} {p p' : ProcessId} {q : Post}
  {fs fs' : List Frame} {s : Signal} {l : Landing}

/-- A task guards one process at a time. -/
theorem Guarded.unique (h : w.Guarded t p fs) (h' : w.Guarded t p' fs') : p' = p ∧ fs' = fs := by
  obtain ⟨q, found, guards⟩ := h
  obtain ⟨q', found', guards'⟩ := h'
  obtain rfl := Option.some.inj (found.symm.trans found')
  cases guards <;> cases guards' <;> exact ⟨rfl, rfl⟩

/-- The frames below stay on the stack. -/
theorem Guards.below (h : w.Guards p fs q) {f : Frame} (mem : f ∈ fs) : f ∈ q.frames := by
  cases h with
  | following => exact List.mem_cons_of_mem _ (List.mem_cons_of_mem _ mem)
  | begun | broken | limited | stopping => exact List.mem_cons_of_mem _ mem

/-! ### What becomes of processes -/

theorem not_owns_setProcess {x : ProcessState} (dead : x ≠ .alive) : ¬ (w.setProcess p x).Owns t p := by
  rintro ⟨k', found, -, alive⟩
  simp only [setProcess, List.getElem?_modify_eq, Option.map_eq_map, Option.map_eq_some_iff] at found
  obtain ⟨k, -, rfl⟩ := found
  exact dead alive

theorem Owns.same (h : v.Owns t p) (processes : v.processes = w.processes) : w.Owns t p := by
  obtain ⟨k, found, rest⟩ := h
  exact ⟨k, processes ▸ found, rest⟩

theorem processes_park (w : World) (t : TaskId) (fs : List Frame) (wait : Wait) :
    (w.park t fs wait).processes = w.processes := park_same Nudges.processes (fun _ _ _ _ _ => rfl) w t fs wait

theorem processes_land (w : World) (t : TaskId) (l : Landing) : (w.land t l).processes = w.processes :=
  land_same Nudges.processes (fun _ _ _ _ _ => rfl) w t l

theorem processes_sleep (w : World) (t : TaskId) (fs : List Frame) (micros : Int) :
    (w.sleep t fs micros).processes = w.processes := by
  unfold sleep
  split
  · exact processes_park w t fs .turn
  · exact processes_park (w.setAlarm t micros.toNat) t fs .alarm

theorem Aside.bred {now : World} (h : Aside t w v) (same : w.current = now.current) :
    Bred now w.processes v.processes := by
  cases h with
  | alike h => exact .of_eq h.processes
  | @process p x tends =>
    refine .modify _ p (fun _ => rfl) (fun k alive => ?_) fun _ => rfl
    obtain rfl : x = .alive := alive
    cases tends
  | launch k own running => exact .append _ ⟨_, _, own ▸ same ▸ running⟩
  | @enroll us =>
    obtain ⟨ks, js, eq, -⟩ := enroll_eq w t us
    exact .of_eq (by rw [eq])
  | stop | forestall => exact .of_eq (cancel_nudges _ _).processes
  | files | call | spawn | follow => exact .refl _

theorem Deeds.bred {now : World} (h : now.Deeds now v) : Bred now now.processes v.processes := by
  induction h with
  | refl => exact .refl _
  | tail before step ih =>
    refine ih.trans ?_
    cases step with
    | aside h => exact h.bred (Deeds.current before)
    | cancel => exact .of_eq (cancel_nudges _ _).processes
    | slots | gauge | render | discard | call | hire => exact .refl _

/-- Nothing but a compile that begins brings a process into being. -/
theorem Flight.apply_bred (h : Flight ms b w) (i : Input) :
    Bred w w.processes (w.apply i).processes ∧ (i ≠ .tick → (w.apply i).processes = w.processes) := by
  have happens := w.apply_happens i
  generalize w.apply i = v at *
  cases happens with
  | @moves t fs s running =>
    obtain ⟨x, l, deeds, -, eq⟩ := h.sane.reaches running
    rw [eq, processes_land]
    exact ⟨deeds.bred, fun other => absurd rfl other⟩
  | @resumes t rest =>
    obtain ⟨ks, cur, eq⟩ := resume_eq { w with queue := rest } t
    rw [eq]
    exact ⟨.refl _, fun _ => rfl⟩
  | forgets | launches | subscribes => exact ⟨.refl _, fun _ => rfl⟩
  | stirs stirred => exact ⟨.of_eq stirred.rest.2.2.2.2, fun _ => stirred.rest.2.2.2.2⟩

theorem Flight.apply_owns (h : Flight ms b w) {i : Input} (owns : (w.apply i).Owns t p) :
    w.Owns t p ∨ w.processes.length ≤ p ∧ i = .tick ∧
      ∃ fs text, w.current = some (t, fs, .start (.compile text)) := by
  obtain ⟨bred, still⟩ := h.apply_bred i
  obtain ⟨k', found, rfl, alive⟩ := owns
  by_cases tick : i = .tick
  · rcases bred.process p k' found with ⟨k, old, own, before, -⟩ | ⟨new, running⟩
    · exact .inl ⟨k, old, own.symm, before alive⟩
    · exact .inr ⟨new, tick, running⟩
  · exact .inl ⟨k', still tick ▸ found, rfl, alive⟩

/-! ### What becomes of a task that does not step -/

theorem current_apply {i : Input} {c : TaskId × List Frame × Signal} (busy : w.current = some c)
    (other : i ≠ .tick) : (w.apply i).current = some c := by
  have happens := w.apply_happens i
  generalize w.apply i = v at *
  cases happens with
  | moves | resumes | forgets => exact absurd rfl other
  | launches idle =>
    rw [busy] at idle
    cases idle
  | subscribes => exact busy
  | stirs stirred => exact stirred.rest.2.2.2.1.trans busy

/-- A task that does not take the step keeps its frames, and what moves it unless it is woken. -/
theorem Flight.apply_post (h : Flight ms b w) {i : Input} (allowed : i.IsPublic) (found : w.post? u = some q)
    (other : ¬ w.Steps i u) : ∃ q', (w.apply i).post? u = some q' ∧
      (q' = q ∨ q.wait ≠ .running ∧ q'.frames = q.frames ∧ (q'.signal = q.signal ∨ q'.signal.IsCalm)) := by
  by_cases runs : ∃ fs s, w.current = some (u, fs, s)
  · obtain ⟨fs, s, running⟩ := runs
    have still : i ≠ .tick := fun tick => other ⟨tick, fs, s, running⟩
    refine ⟨q, ?_, .inl rfl⟩
    rw [(h.apply allowed).post?_running (current_apply running still), ← h.post?_running running, found]
  · rw [post?_other fun fs s running => runs ⟨fs, s, running⟩] at found
    obtain ⟨k, at_u, rfl⟩ := Option.map_eq_some_iff.1 found
    have idle : k.wait ≠ .running := fun running => runs ((h.steady.midst.agrees u).1 ⟨k, at_u, running⟩)
    obtain ⟨q', found', frames, signal⟩ := h.apply_old allowed at_u idle
    exact ⟨q', found', .inr ⟨idle, frames, signal⟩⟩

/-- A task that waits for a signal that is no fault goes on waiting at its frames, perhaps with another such signal. -/
theorem Flight.apply_calm (h : Flight ms b w) {i : Input} (allowed : i.IsPublic) {wait : Wait}
    (found : w.post? u = some ⟨fs, s, wait⟩) (calm : s.IsCalm) (other : ¬ w.Steps i u) :
    ∃ s' wait', s'.IsCalm ∧ (w.apply i).post? u = some ⟨fs, s', wait'⟩ := by
  obtain ⟨⟨fs', s', wait'⟩, found', eq | ⟨-, rfl, same | calm'⟩⟩ := h.apply_post allowed found other
  · exact ⟨s, wait, calm, eq ▸ found'⟩
  · obtain rfl : s' = s := same
    exact ⟨s', wait', calm, found'⟩
  · exact ⟨s', wait', calm', found'⟩

theorem Flight.trails_other (h : Flight ms b w) {i : Input} (allowed : i.IsPublic) (trails : w.Trails p f)
    (other : ¬ w.Steps i f) : (w.apply i).Trails p f := by
  have next := h.apply allowed
  cases trails with
  | begun found up =>
    rcases up with rfl | rfl
    · have apart : ∀ fs s, w.current ≠ some (f, fs, s) := by
        intro fs s running
        rw [h.post?_running running] at found
        cases found
      rw [post?_other apart] at found
      obtain ⟨k, found, post⟩ := Option.map_eq_some_iff.1 found
      have turn : k.wait = .turn := congrArg Post.wait post
      have frames : k.frames = [] := congrArg Post.frames post
      have signal : k.signal = .start (.follow p) := congrArg Post.signal post
      rcases h.apply_turn i found turn with stays | ⟨-, -, running⟩
      · exact .begun ((stays.post (.inl turn) next).trans (congrArg some post)) (.inl rfl)
      · rw [frames, signal] at running
        split at running
        · exact .broken (next.post?_running running)
        · exact .begun (next.post?_running running) (.inr rfl)
    · obtain ⟨q', found', rfl | ⟨idle, -⟩⟩ := h.apply_post allowed found other
      · exact .begun found' (.inr rfl)
      · exact absurd rfl idle
  | @following s wait found calm out =>
    obtain ⟨⟨fs', s', wait'⟩, found', eq | ⟨-, frames, signal⟩⟩ := h.apply_post allowed found other
    · exact .following (eq ▸ found') calm (h.apply_out i out other)
    · obtain rfl : fs' = [.following p] := frames
      refine .following found' ?_ (h.apply_out i out other)
      rcases signal with rfl | calm'
      · exact calm
      · exact calm'
  | broken found =>
    obtain ⟨q', found', rfl | ⟨idle, -⟩⟩ := h.apply_post allowed found other
    · exact .broken found'
    · exact absurd rfl idle
  | @ended s found cancelled =>
    have apart : ∀ fs s, w.current ≠ some (f, fs, s) := by
      intro fs s running
      rw [h.post?_running running] at found
      cases found
    rw [post?_other apart] at found
    obtain ⟨k, found, post⟩ := Option.map_eq_some_iff.1 found
    have ceased : k.wait = .ended := congrArg Post.wait post
    have firm : k.wait.IsFirm := .inr ceased
    have stays := (h.stays found firm).apply firm h i fun turn => nomatch ceased.symm.trans turn
    obtain ⟨k', found', -, result, -⟩ := stays.task
    refine .ended ((stays.post firm next).trans (congrArg some post)) ?_
    simpa [wasCancelled, found, found', result] using cancelled

/-- A task that guards a process and does not take the step guards it afterwards. -/
theorem Flight.guarded_other (h : Flight ms b w) {i : Input} (allowed : i.IsPublic)
    (guarded : w.Guarded t p fs) (other : ¬ w.Steps i t)
    (trails : ∀ f, w.Trails p f → (w.apply i).Trails p f) : (w.apply i).Guarded t p fs := by
  obtain ⟨q, found, guards⟩ := guarded
  obtain ⟨⟨fs', s', wait'⟩, found', eq | ⟨idle, rfl, signal⟩⟩ := h.apply_post allowed found other
  · rw [eq] at found'
    refine ⟨q, found', ?_⟩
    cases guards with
    | begun => exact .begun
    | following calm => exact .following calm
    | broken => exact .broken
    | limited calm trailed => exact .limited calm (trails _ trailed)
    | stopping calm => exact .stopping calm
  · refine ⟨_, found', ?_⟩
    have calms : ∀ {s : Signal}, s.IsCalm → s' = s ∨ s'.IsCalm → s'.IsCalm := by
      rintro s calm (rfl | calm')
      · exact calm
      · exact calm'
    cases guards with
    | begun | broken => exact absurd rfl idle
    | following calm => exact .following (calms calm signal)
    | limited calm trailed => exact .limited (calms calm signal) (trails _ trailed)
    | stopping calm => exact .stopping (calms calm signal)

/-! ### What becomes of a task that steps -/

/-- A task that has stopped to wait is at the frames it waits with. -/
theorem land_post (there : t < w.tasks.length) (fs : List Frame) (wait : Wait) : ∃ s wait',
    (w.park t fs wait).post? t = some ⟨fs, s, wait'⟩ ∧ s.IsCalm := by
  have idle : ∀ fs' s, (w.park t fs wait).current ≠ some (t, fs', s) := fun fs' s => by
    rw [current_park]
    nofun
  obtain ⟨k, found⟩ : ∃ k, w.tasks[t]? = some k := ⟨_, List.getElem?_eq_getElem there⟩
  rw [post?_other idle]
  rcases park_nudged w t fs wait with eq | nudges
  · have yielded : (w.yield t fs wait).tasks[t]? = some { k with frames := fs, wait, signal := .value .unit } := by
      simp [World.yield, modifyTask, found]
    rw [eq, yielded]
    exact ⟨_, _, rfl, trivial⟩
  · have cleared : ((w.yield t fs wait).clearCancel t).tasks[t]? =
        some { k with frames := fs, wait, signal := .value .unit, mustCancel := false } := by
      simp [World.yield, clearCancel, modifyTask, found]
    have grown : Grown (fun _ => False) _ _ := nudges.grown
    obtain ⟨k', found', frames, signal⟩ := grown.old cleared
    rw [found']
    refine ⟨k'.signal, k'.wait, ?_, ?_⟩
    · simp [Task.post, frames]
    · rcases signal with same | calm
      · rw [same]
        trivial
      · exact calm

theorem sleep_post (there : t < w.tasks.length) (fs : List Frame) (micros : Int) : ∃ s wait,
    (w.sleep t fs micros).post? t = some ⟨fs, s, wait⟩ ∧ s.IsCalm := by
  unfold sleep
  split
  · exact land_post there fs .turn
  · exact land_post (w := w.setAlarm t micros.toNat) there fs .alarm

theorem processes_reaped (w : World) (t : TaskId) (fs : List Frame) (why : KillReason) :
    (w.reaped t fs why).processes = w.processes := by
  cases why with
  | timedOut | cancelled => rfl

/-- A process that has been killed is not alive. -/
theorem not_owns_kill (why : KillReason) : ¬ (w.kill t fs p why).Owns u p := by
  intro owns
  unfold kill at owns
  cases found : w.processes[p]? with
  | none =>
    rw [found] at owns
    obtain ⟨k, found', -⟩ := owns.same (processes_reaped w t fs why)
    rw [found] at found'
    cases found'
  | some k =>
    rw [found] at owns
    dsimp only at owns
    refine not_owns_setProcess (w := w) (p := p) (x := .killed) nofun (owns.same ?_)
    split
    · exact processes_reaped _ t fs why
    · split
      · exact processes_reaped _ t fs why
      · exact processes_sleep _ t _ _

theorem not_owns_exited : ¬ (w.processExited t fs p).Owns u p := by
  intro owns
  unfold processExited at owns
  cases found : w.processes[p]? with
  | none =>
    rw [found] at owns
    obtain ⟨k, found', -⟩ := owns
    rw [show (w.ret t fs .unit).processes = w.processes from rfl, found] at found'
    cases found'
  | some k =>
    rw [found] at owns
    exact not_owns_setProcess (w := w) (p := p) (x := .exited) nofun owns

/-- How a task is left that has ended. -/
theorem finish_task (r : Result) {k : Task} (found : w.tasks[t]? = some k) : (w.finish t r).tasks[t]? =
    some { k with frames := [], wait := .ended, mustCancel := false, result := some (resultAsked k.mustCancel r) } := by
  unfold World.finish
  rw [enqueueAll]
  simp [modifyTask, found]

/-- A task that begins to follow a process that stays alive waits for it. -/
theorem beginFollow_waits (owns : (w.beginFollow t fs p).Owns u p) :
    ∃ d, w.beginFollow t fs p = w.sleep t (.following p :: fs) d := by
  unfold beginFollow at owns ⊢
  cases found : w.processes[p]? with
  | none =>
    rw [found] at owns
    obtain ⟨k, found', -⟩ := owns
    rw [show (w.ret t fs .unit).processes = w.processes from rfl, found] at found'
    cases found'
  | some k =>
    rw [found] at owns
    dsimp only at owns ⊢
    split at owns
    · exact absurd owns not_owns_exited
    · rename_i later
      exact ⟨_, if_neg later⟩

theorem ledger_sleep (awake : w.ledger.out t = true) (rung : w.Rung) (fs : List Frame) (micros : Int) :
    (w.sleep t fs micros).ledger = w.ledger := by
  unfold sleep
  split
  · exact ledger_land (l := .turn fs) awake rung trivial nofun
  · exact ledger_land (l := .timed fs .alarm micros.toNat) awake rung nofun nofun

theorem Flight.there (h : Flight ms b w) (running : w.current = some (t, fs, s)) : t < w.tasks.length := by
  obtain ⟨k, found, -⟩ := (h.steady.midst.agrees t).2 ⟨fs, s, running⟩
  exact (List.getElem?_eq_some_iff.1 found).1

theorem Flight.post?_there (h : Flight ms b w) (found : w.post? t = some q) : t < w.tasks.length := by
  by_cases runs : ∃ fs s, w.current = some (t, fs, s)
  · obtain ⟨fs, s, running⟩ := runs
    exact h.there running
  · rw [post?_other fun fs s running => runs ⟨fs, s, running⟩] at found
    obtain ⟨k, at_t, -⟩ := Option.map_eq_some_iff.1 found
    exact (List.getElem?_eq_some_iff.1 at_t).1

theorem hasEnded_eq (w : World) (u : TaskId) : w.hasEnded u = !w.ledger.out u := by
  cases found : w.tasks[u]? with
  | none => simp [hasEnded, ledger, found]
  | some k => simp [hasEnded, ledger, found]

/-- A follower that has ended was cancelled. -/
theorem Flight.trails_ended (h : Flight ms b w) (trails : w.Trails p f) (ceased : w.hasEnded f = true) :
    w.wasCancelled f = true := by
  rw [hasEnded_eq] at ceased
  have contra : ∀ {q : Post}, w.post? f = some q → q.wait ≠ .ended → w.wasCancelled f = true := by
    intro q found awake
    rw [h.post_out found awake] at ceased
    cases ceased
  cases trails with
  | begun found up =>
    refine contra found ?_
    rcases up with rfl | rfl
    · exact nofun
    · exact nofun
  | following _ _ out =>
    rw [out] at ceased
    cases ceased
  | broken found => exact contra found nofun
  | ended _ cancelled => exact cancelled

/-- Once the wait with a limit is over the process is gone, unless its owner stops the follower first. -/
theorem Flight.limitedWaitOver_guarded (h : Flight ms b w) (there : t < w.tasks.length) (why : KillReason)
    (trails : w.Trails p f) (owns : (w.limitedWaitOver t fs p f why).Owns u p) :
    (w.limitedWaitOver t fs p f why).Guarded t p fs := by
  unfold limitedWaitOver at owns ⊢
  by_cases ceased : w.hasEnded f = true
  · rw [if_pos ceased, if_pos (h.trails_ended trails ceased)] at owns
    exact absurd owns (not_owns_kill .cancelled)
  · rw [if_neg ceased]
    have there' : t < ((w.modifyTask f fun k => { k with watchers := [.report t f] }).cancel f).tasks.length := by
      rw [(cancel_nudges _ f).length]
      simpa [modifyTask] using there
    obtain ⟨s, wait, found, calm⟩ := land_post there' (.stoppingFollower p why :: fs) (.follower f)
    exact ⟨_, found, .stopping calm⟩

/-- The step of a task that guards a process that stays alive. -/
theorem Flight.guarded_move (h : Flight ms b w) (running : w.current = some (t, fs, s))
    (guarded : w.Guarded t p fs') (owns : (w.move t fs s).Owns u p) : (w.move t fs s).Guarded t p fs' := by
  have step : w.apply .tick = w.move t fs s := tick_running running
  have next := h.apply (i := .tick) trivial
  rw [step] at next
  obtain ⟨q, found, guards⟩ := guarded
  obtain rfl := Option.some.inj ((h.post?_running running).symm.trans found)
  cases guards with
  | begun =>
    have follows : (w.beginFollow t (.running p :: fs') p).Owns u p := owns
    obtain ⟨d, eq⟩ := beginFollow_waits follows
    obtain ⟨s, wait, found, calm⟩ := sleep_post (h.there running) (.following p :: .running p :: fs') d
    exact ⟨_, (congrArg (post? · t) eq).trans found, .following calm⟩
  | following calm =>
    cases s with
    | start | fault => exact calm.elim
    | value => exact absurd owns not_owns_exited
    | cancelled => exact ⟨_, next.post?_running rfl, .broken⟩
  | broken => exact absurd owns (not_owns_kill .cancelled)
  | limited calm trails =>
    cases s with
    | start | fault => exact calm.elim
    | value => exact h.limitedWaitOver_guarded (h.there running) .timedOut trails owns
    | cancelled => exact h.limitedWaitOver_guarded (h.there running) .cancelled trails owns
  | @stopping why _ _ calm =>
    cases s with
    | start | fault => exact calm.elim
    | value => exact absurd owns (not_owns_kill why)
    | cancelled => exact absurd owns (not_owns_kill .cancelled)

/-- The step of a task that trails a process that stays alive. -/
theorem Flight.trails_move (h : Flight ms b w) (running : w.current = some (f, fs, s))
    (trails : w.Trails p f) (owns : (w.move f fs s).Owns u p) : (w.move f fs s).Trails p f := by
  have step : w.apply .tick = w.move f fs s := tick_running running
  have next := h.apply (i := .tick) trivial
  rw [step] at next
  have here := h.post?_running running
  cases trails with
  | begun found =>
    obtain ⟨rfl⟩ := Option.some.inj (here.symm.trans found)
    have follows : (w.beginFollow f [] p).Owns u p := owns
    obtain ⟨d, eq⟩ := beginFollow_waits follows
    obtain ⟨s, wait, found, calm⟩ := sleep_post (h.there running) [.following p] d
    refine .following ((congrArg (post? · f) eq).trans found) calm ?_
    have kept : ((w.move f [] (.start (.follow p))).ledger) = w.ledger :=
      (congrArg ledger eq).trans (ledger_sleep (h.running_out running) h.rung _ d)
    rw [kept]
    exact h.running_out running
  | following found calm =>
    obtain ⟨rfl⟩ := Option.some.inj (here.symm.trans found)
    cases s with
    | start | fault => exact calm.elim
    | value => exact absurd owns not_owns_exited
    | cancelled => exact .broken (next.post?_running rfl)
  | broken found =>
    obtain ⟨rfl⟩ := Option.some.inj (here.symm.trans found)
    obtain ⟨k, at_f, -⟩ := (h.steady.midst.agrees f).2 ⟨_, _, running⟩
    have finished : (w.move f [] .cancelled).tasks[f]? = _ := finish_task .cancelled at_f
    have idle := next.not_current finished nofun
    exact .ended (by rw [post?_other idle, finished]; rfl) (by simp [wasCancelled, finished, resultAsked])
  | ended found =>
    rw [here] at found
    cases found

/-! ### What becomes of a task that starts a process -/

theorem Rung.there (h : w.Rung) {a : Alarm} (mem : a ∈ w.alarms) : a.task < w.tasks.length := by
  obtain ⟨k, found, -⟩ := ledger_out_iff.1 (h a mem)
  exact (List.getElem?_eq_some_iff.1 found).1

theorem processes_awaitProcess (w : World) (t : TaskId) (fs : List Frame) (p : ProcessId) :
    (w.awaitProcess t fs p).processes = w.processes := by
  unfold awaitProcess
  dsimp only
  split
  · rfl
  · split
    · exact (processes_park _ t _ _).trans (cancel_nudges _ _).processes
    · exact processes_park _ t _ _

/-- A task that has started a process guards it. -/
theorem awaitProcess_guarded (there : t < w.tasks.length) (rung : w.Rung)
    (next : Flight ms b (w.awaitProcess t fs p)) : (w.awaitProcess t fs p).Guarded t p fs := by
  unfold awaitProcess at next ⊢
  dsimp only at next ⊢
  split
  · rename_i unlimited
    rw [if_pos unlimited] at next
    exact ⟨_, next.post?_running rfl, .begun⟩
  · rename_i limited
    rw [if_neg limited] at next
    let x := (w.spawn (.follow p) fun f => [.report t f]).2
    have there' : t < x.tasks.length := lt_length_spawn there _ _
    split
    · have there'' : t < (x.stopped t w.tasks.length).tasks.length :=
        Nat.lt_of_lt_of_eq there' (length_stopped _ _ _).symm
      obtain ⟨s, wait, found, calm⟩ :=
        land_post there'' (.stoppingFollower p .timedOut :: fs) (.follower w.tasks.length)
      exact ⟨_, found, .stopping calm⟩
    · rename_i positive
      rw [if_neg positive] at next
      let y := x.setAlarm t w.setup.limit.millionths.toNat
      obtain ⟨s, wait, found, calm⟩ :=
        land_post (w := y) there' (.limited p w.tasks.length :: fs) (.follower w.tasks.length)
      have up : Wait.IsUp .turn := .inl rfl
      refine ⟨_, found, .limited calm (.begun ?_ up)⟩
      let k : Task := ⟨[], .start (.follow p), .turn, false, [.report t w.tasks.length], none⟩
      have new : y.Stays w.tasks.length k := by
        refine ⟨⟨k, by simp [y, x, k, spawn, enqueue, setAlarm], rfl, rfl, id⟩, fun a mem => ?_⟩
        rcases List.mem_append.1 mem with old | set
        · exact Nat.ne_of_lt (rung.there old)
        · rw [List.mem_singleton.1 set]
          exact Nat.ne_of_lt there
      have stays := new.brushes (.inl rfl)
        (.park y (.limited p w.tasks.length :: fs) (.follower w.tasks.length) (Nat.ne_of_lt there))
      exact stays.post (.inl rfl) next

theorem invoke_guarded {executable : Option String} {text : String} (there : t < w.tasks.length)
    (rung : w.Rung) (next : Flight ms b (w.invoke t fs executable text))
    (owns : (w.invoke t fs executable text).Owns u p) (new : ¬ w.Owns u p) :
    u = t ∧ (w.invoke t fs executable text).Guarded t p fs := by
  have unchanged : ∀ {v : World}, v.Owns u p → v.processes = w.processes → False :=
    fun owns eq => new (owns.same eq)
  unfold invoke at owns next ⊢
  cases executable with
  | none => exact (unchanged owns rfl).elim
  | some exe =>
    dsimp only at owns next ⊢
    cases wrote : ((w.count "compile.started").setup.child text).writeFault with
    | some fault =>
      rw [wrote] at owns
      cases fault with
      | refused m => exact (unchanged owns rfl).elim
      | crashed name m => exact (unchanged owns rfl).elim
    | none =>
      rw [wrote] at owns next
      dsimp only at owns next ⊢
      cases started : ((w.count "compile.started").setup.child text).startFault with
      | some fault =>
        rw [started] at owns
        cases fault with
        | refused m => exact (unchanged owns rfl).elim
        | crashed name m => exact (unchanged owns rfl).elim
      | none =>
        rw [started] at owns next
        dsimp only at owns next ⊢
        obtain ⟨k, found, own, alive⟩ := owns
        rw [processes_awaitProcess] at found
        rcases getElem?_concat_iff.1 found with old | ⟨rfl, rfl⟩
        · exact absurd ⟨k, old, own, alive⟩ new
        · refine ⟨own.symm, awaitProcess_guarded there ?_ next⟩
          exact rung.same (fun _ => id) rfl

/-- A task that begins a compile guards the process that comes of it. -/
theorem beginCompile_guarded {text : String} (there : t < w.tasks.length) (rung : w.Rung)
    (next : Flight ms b (w.beginCompile t fs text)) (owns : (w.beginCompile t fs text).Owns u p)
    (new : ¬ w.Owns u p) : u = t ∧ (w.beginCompile t fs text).Guarded t p fs := by
  have noted := Alike.noteAll w w.finder.notes
  have new' : ¬ (w.noteAll w.finder.notes).Owns u p := fun owns => new (owns.same noted.processes)
  unfold beginCompile at owns next ⊢
  dsimp only at owns next ⊢
  cases found : (w.noteAll w.finder.notes).finder.answer with
  | error f =>
    rw [found] at owns
    exact absurd (owns.same (w := w.noteAll w.finder.notes) rfl) new'
  | ok exe =>
    rw [found] at owns next
    refine invoke_guarded (noted.tasks.symm ▸ there) ?_ next owns new'
    exact rung.same (fun _ => noted.alarms ▸ id) noted.ledger

/-! ### Custody -/

/-- A task that guards a process guards it until it is over. -/
theorem Flight.apply_guarded (h : Flight ms b w) {i : Input} (allowed : i.IsPublic)
    (guarded : w.Guarded t p fs) (owns : (w.apply i).Owns u p) : (w.apply i).Guarded t p fs := by
  by_cases steps : w.Steps i t
  · obtain ⟨rfl, fs', s, running⟩ := steps
    have step : w.apply .tick = w.move t fs' s := tick_running running
    rw [step] at owns ⊢
    exact h.guarded_move running guarded owns
  · refine h.guarded_other allowed guarded steps fun f trails => ?_
    by_cases steps' : w.Steps i f
    · obtain ⟨rfl, fs', s, running⟩ := steps'
      have step : w.apply .tick = w.move f fs' s := tick_running running
      rw [step] at owns ⊢
      exact h.trails_move running trails owns
    · exact h.trails_other allowed trails steps'

/-- The task that has started a process that is alive waits for its end. -/
theorem Flight.apply_custody (h : Flight ms b w) (custody : w.Custody) {i : Input} (allowed : i.IsPublic) :
    (w.apply i).Custody := by
  intro t p owns
  by_cases old : w.Owns t p
  · obtain ⟨fs, guarded⟩ := custody t p old
    exact ⟨fs, h.apply_guarded allowed guarded owns⟩
  · rcases h.apply_owns owns with before | ⟨-, rfl, fs, text, running⟩
    · exact absurd before old
    · have step : w.apply .tick = w.beginCompile t fs text := tick_running running
      have next := h.apply (i := .tick) trivial
      rw [step] at owns next ⊢
      exact ⟨fs, (beginCompile_guarded (h.there running) h.rung next owns old).2⟩

theorem IsNew.custody (new : w.IsNew) : w.Custody := by
  rintro t p ⟨k, found, -⟩
  simp [new.processes] at found

/-- In every state that comes about, the task that has started a process that is alive waits for it. -/
theorem run_custody (new : w.IsNew) {inputs : List Input} (allowed : ∀ i ∈ inputs, i.IsPublic) :
    (w.run inputs).Custody := by
  have kept : ∀ (ms : List Mark) (v : World) (i : Input), Flight ms (w.bench none) v ∧ v.Custody →
      i.IsPublic → Flight (ms ++ v.marks i) (w.bench none) (v.apply i) ∧ (v.apply i).Custody :=
    fun _ _ i h given => ⟨h.1.apply given, h.1.apply_custody h.2 given⟩
  exact (run_induct (I := fun ms v => Flight ms (w.bench none) v ∧ v.Custody) kept
    ⟨new.flight, new.custody⟩ inputs allowed).2

end
end World
end InkPreview.Live
