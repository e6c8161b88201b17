import InkPreview.Proofs.Live.Balance
import InkPreview.Proofs.Live.Deadline
/-!
Invocations of the compiler. A task that has started a process does not come back before the process has exited or
has been killed; the process is killed only once the time is up or the task has been cancelled; and a task that is
cancelled meanwhile comes back with its cancellation. Main statement: `compile_minds_child`.
-/
namespace InkPreview.Live
namespace World

/-- The process has been killed. -/
def Slain (w : World) (p : ProcessId) : Prop := w.processes[p]?.map (·.state) = some .killed

/-- In the course of the inputs the task is moved by its cancellation. -/
def CutShort (w : World) (t : TaskId) (inputs : List Input) : Prop :=
  ∃ xs ys fs, inputs = xs ++ .tick :: ys ∧ (w.run xs).current = some (t, fs, .cancelled)

/-- The running task is moved by its cancellation, or learns that the task that follows its process has been
cancelled. -/
def Quits (w : World) (t : TaskId) : Prop := ∃ fs s, w.current = some (t, fs, s) ∧
  (s = .cancelled ∨ ∃ p f rest, fs = .limited p f :: rest ∧ w.hasEnded f = true ∧ w.wasCancelled f = true)

/-- In the course of the inputs it does. -/
def CutOff (w : World) (t : TaskId) (inputs : List Input) : Prop :=
  ∃ xs ys, inputs = xs ++ .tick :: ys ∧ (w.run xs).Quits t

/-- A wait under a limit that is cancelled ends in the cancellation, even if its process has just ended. -/
def Heeds (w : World) : Prop := w.setup.limit.isZero = true ∨ w.setup.heedsLate = true

/-- When the time of a compile that begins now is up, if there is a limit. -/
def deadline (w : World) : Nat := w.clock + w.setup.limit.millionths.toNat

/-- There is a limit, and a compile that has begun in `w` has used up its time in `v`. -/
def Expired (w v : World) : Prop := w.setup.limit.isZero = false ∧ w.deadline ≤ v.clock

/-- Every process that a task waits for is one that it has started. -/
def Tended (w : World) : Prop := ∀ u, ∀ p ∈ w.charges u, ∃ k, w.processes[p]? = some k ∧ k.owner = u

/-- What a compile whose time is up comes to. -/
def overdue (w : World) : Outcome := .failed .processError (timedOutMessage w.setup.limit)

/-- Places of a compile, above the frames of its caller, with its process. The task has been cancelled meanwhile if
`cut`, and the time is up if `late`. If `heeds`, the task is sure to come back with its cancellation; otherwise it comes
back with `done`, which is what the process comes to, or with `over`, which takes that the time is up. -/
inductive Stand (p : ProcessId) (done lapsed : Outcome) (heeds cut late : Prop) : List Frame → Signal → Prop
  | back {s : Signal} (own : s = .cancelled → cut) (heeded : heeds → cut → s = .cancelled)
      (result : s = .cancelled ∨ s = .value (.outcome done) ∨ s = .value (.outcome lapsed) ∧ late) :
      Stand p done lapsed heeds cut late [] s
  | begun (uncut : ¬ cut) : Stand p done lapsed heeds cut late [.running p] (.start (.follow p))
  | following {s : Signal} (calm : s.IsCalm) (uncut : ¬ cut) : Stand p done lapsed heeds cut late
      [.following p, .running p] s
  | running {s : Signal} (calm : s.IsCalm) (heeded : s = .cancelled ↔ cut) :
      Stand p done lapsed heeds cut late [.running p] s
  | limited {f : TaskId} {s : Signal} (calm : s.IsCalm) (uncut : ¬ cut) : Stand p done lapsed heeds cut late
      [.limited p f] s
  | stopping {why : KillReason} {s : Signal} (calm : s.IsCalm) (heeded : why = .cancelled ↔ cut)
      (up : why = .timedOut → late) : Stand p done lapsed heeds cut late [.stoppingFollower p why] s
  | reaping {why : KillReason} {s : Signal} (calm : s.IsCalm) (heeded : why = .cancelled ↔ cut)
      (up : why = .timedOut → late) : Stand p done lapsed heeds cut late [.reaping p why] s

/-- The task is at such a place above the frames `base`, and its process has not been killed without a reason. If it
waits with a limit, it waits until `due`. -/
structure Minding (w : World) (t : TaskId) (p : ProcessId) (c : Child) (cut late : Prop) (due : Nat)
    (base : List Frame) :
    Prop where
  child : w.processes[p]?.map (·.child) = some c
  place : ∃ pre,
    (∃ s, w.current = some (t, pre ++ base, s) ∧ Stand p c.outcome.1 w.overdue w.Heeds cut late pre s ∧
      ∀ f, pre = [.limited p f] → w.setup.limit.isZero = false ∧ (s = .cancelled ∨ w.Over f due)) ∨
    pre ≠ [] ∧ (∀ s : Signal, s.IsCalm → Stand p c.outcome.1 w.overdue w.Heeds cut late pre s) ∧
      (∀ f, pre = [.limited p f] → w.setup.limit.isZero = false ∧ w.Abides t f due (w.Over f due)) ∧
      ∃ s wait, s.IsCalm ∧ w.post? t = some ⟨pre ++ base, s, wait⟩
  reason : w.Slain p → cut ∨ late

section
variable {ms : List Mark} {b : Bench} {w v : World} {t u : TaskId} {p q : ProcessId} {c : Child}
  {base fs pre : List Frame}
  {s : Signal} {text : String} {done lapsed : Outcome} {heeds cut late late' : Prop} {due : Nat}
  {why : KillReason} {i : Input}

/-! ### Whose processes there are -/

/-- In `x`, which is otherwise like `w`, a process that behaves like `c` has been started for the task. -/
structure Starting (w x : World) (t : TaskId) (c : Child) : Prop where
  process : ∃ k, x.processes = w.processes ++ [k] ∧ k.owner = t ∧ k.state = .alive ∧ k.child = c
  setup : x.setup = w.setup
  tasks : x.tasks = w.tasks
  alarms : x.alarms = w.alarms
  clock : x.clock = w.clock

/-- A compile that begins is back at once, or has found a compiler and started a process. -/
theorem beginCompile_begins (w : World) (t : TaskId) (base : List Frame) (text : String) :
    ((w.beginCompile t base text).processes = w.processes ∧ ∃ s, (w.beginCompile t base text).current = some (t, base, s)) ∨
    (∃ exe, w.finder.answer = .ok (some exe)) ∧
      ∃ x, w.beginCompile t base text = World.awaitProcess x t base w.processes.length ∧
        w.Starting x t (w.setup.child text) := by
  have noted := Alike.noteAll w w.finder.notes
  have finder := finder_noteAll w w.finder.notes
  unfold beginCompile
  dsimp only
  rw [finder]
  split
  · exact .inl ⟨noted.processes, _, rfl⟩
  · rename_i exe found
    unfold invoke
    cases exe with
    | none => exact .inl ⟨noted.processes, _, rfl⟩
    | some exe =>
      dsimp only
      split
      · exact .inl ⟨noted.processes, _, rfl⟩
      · exact .inl ⟨noted.processes, _, rfl⟩
      · split
        · exact .inl ⟨noted.processes, _, rfl⟩
        · exact .inl ⟨noted.processes, _, rfl⟩
        · have started : ∀ k : Process, (w.noteAll w.finder.notes).processes ++ [k] = w.processes ++ [k] :=
            fun k => congrArg (· ++ [k]) noted.processes
          rw [← noted.processes]
          have child : (w.noteAll w.finder.notes).setup.child text = w.setup.child text := by rw [noted.setup]
          exact .inr ⟨⟨exe, found⟩, _, rfl,
            ⟨⟨_, started _, rfl, rfl, child⟩, noted.setup, noted.tasks, noted.alarms, noted.clock⟩⟩

/-- An old process belongs to the task that started it. -/
theorem Bred.owned {now : World} {xs ys : List Process} (h : Bred now xs ys)
    (own : ∃ k, xs[p]? = some k ∧ k.owner = u) : ∃ k, ys[p]? = some k ∧ k.owner = u := by
  obtain ⟨k, found, rfl⟩ := own
  obtain ⟨k', found', -⟩ := h.old found
  rcases h.process p k' found' with ⟨k₀, old, same, -⟩ | ⟨new, -⟩
  · obtain rfl := Option.some.inj (found.symm.trans old)
    exact ⟨k', found', same⟩
  · exact absurd (List.getElem?_eq_some_iff.1 found).1 (Nat.not_lt.2 new)

theorem Flight.apply_tended (h : Flight ms b w) (tended : w.Tended) (allowed : i.IsPublic) : (w.apply i).Tended := by
  have kept : ∀ {u : TaskId} {p : ProcessId}, (∃ k, w.processes[p]? = some k ∧ k.owner = u) →
      ∃ k, (w.apply i).processes[p]? = some k ∧ k.owner = u := fun own => (h.apply_bred i).1.owned own
  intro u p mem
  by_cases steps : w.Steps i u
  · obtain ⟨rfl, fs, s, running⟩ := steps
    have before : w.charges u = children fs := by rw [charges, stackOf_running running]
    have step : w.apply .tick = w.tick := rfl
    cases h.labours running with
    | idle same =>
      rw [step, same, ← before] at mem
      exact kept (tended u p mem)
    | @begun text compiles attends =>
      subst compiles
      have begins : w.tick = w.beginCompile u fs text := tick_running running
      rcases beginCompile_begins w u fs text with ⟨-, s, now⟩ | ⟨-, x, eq, ⟨k, processes, own, -⟩, -⟩
      · rw [step, charges, begins, stackOf_running now, ← before] at mem
        exact kept (tended u p mem)
      · have there : (w.apply .tick).processes[w.processes.length]? = some k := by
          rw [step, begins, eq, processes_awaitProcess, processes]
          exact List.getElem?_concat_length
        rcases attends.charges with ⟨charges, -⟩ | ⟨charges, -⟩
        · rw [step, charges, ← before] at mem
          rcases List.mem_cons.1 mem with rfl | old
          · exact ⟨k, there, own⟩
          · exact kept (tended u p old)
        · rw [step, charges, ← before] at mem
          exact kept (tended u p mem)
    | @under f rest p' frames child attends =>
      have own : p ∈ w.charges u := by
        have split : children fs = p' :: children rest := by simp [frames, children, child]
        rw [before, split]
        rcases attends.charges with ⟨charges, -⟩ | ⟨charges, -⟩
        · exact charges ▸ mem
        · exact List.mem_cons_of_mem _ (charges ▸ mem)
      exact kept (tended u p own)
  · rw [charges, h.apply_stack allowed steps] at mem
    exact kept (tended u p mem)

theorem IsNew.tended (new : w.IsNew) : w.Tended := by
  intro u p mem
  rw [charges, new.flight.stackOf_missing (by simp [new.tasks])] at mem
  cases mem

/-- After every run, a task waits for no processes but those it has started. -/
theorem run_tended (new : w.IsNew) {inputs : List Input} (allowed : ∀ i ∈ inputs, i.IsPublic) :
    (w.run inputs).Tended := by
  have kept : ∀ (ms : List Mark) (v : World) (i : Input), Flight ms (w.bench none) v ∧ v.Tended →
      i.IsPublic → Flight (ms ++ v.marks i) (w.bench none) (v.apply i) ∧ (v.apply i).Tended :=
    fun _ _ i h given => ⟨h.1.apply given, h.1.apply_tended h.2 given⟩
  exact (run_induct (I := fun ms v => Flight ms (w.bench none) v ∧ v.Tended) kept
    ⟨new.flight, new.tended⟩ inputs allowed).2

/-! ### Who kills -/

theorem Aside.slain (h : Aside t w v) (slain : v.Slain p) :
    w.Slain p ∨ ∃ f fs s, w.current = some (t, f :: fs, s) ∧ f.child? = some p := by
  have same : v.processes = w.processes → w.Slain p := fun eq => by rwa [Slain, ← eq]
  cases h with
  | alike h => exact .inl (same h.processes)
  | @process q x tends =>
    by_cases here : q = p
    · subst here
      cases tends with
      | kills running _ child => exact .inr ⟨_, _, _, running, child⟩
      | follows | followed =>
        simp [Slain, setProcess] at slain
    · refine .inl ?_
      simpa [Slain, setProcess, List.getElem?_modify, here] using slain
  | launch k _ _ alive =>
    obtain ⟨k', found, killed⟩ := Option.map_eq_some_iff.1 slain
    rcases getElem?_concat_iff.1 found with old | ⟨-, rfl⟩
    · exact .inl (Option.map_eq_some_iff.2 ⟨k', old, killed⟩)
    · rw [alive] at killed
      cases killed
  | @enroll us =>
    obtain ⟨ks, js, eq, -⟩ := enroll_eq w t us
    exact .inl (same (by rw [eq]))
  | stop | forestall => exact .inl (same (cancel_nudges _ _).processes)
  | files | call | spawn | follow => exact .inl (same rfl)

theorem Deeds.slain {now : World} (h : now.Deeds now v) (slain : v.Slain p) :
    now.Slain p ∨ ∃ u f fs s, now.current = some (u, f :: fs, s) ∧ f.child? = some p := by
  induction h with
  | refl => exact .inl slain
  | @tail x y before step ih =>
    have same : y.processes = x.processes → x.Slain p := fun eq => by rwa [Slain, ← eq]
    cases step with
    | aside h =>
      rcases Aside.slain h slain with old | ⟨f, fs, s, running, child⟩
      · exact ih old
      · exact .inr ⟨_, f, fs, s, (Deeds.current before).symm.trans running, child⟩
    | cancel => exact ih (same (cancel_nudges _ _).processes)
    | slots | gauge | render | discard | call | hire => exact ih (same rfl)

/-- Nobody but a task that waits for the process kills it. -/
theorem Flight.apply_slain (h : Flight ms b w) (i : Input) (slain : (w.apply i).Slain p) :
    w.Slain p ∨ i = .tick ∧ ∃ u f fs s, w.current = some (u, f :: fs, s) ∧ f.child? = some p := by
  have same : (w.apply i).processes = w.processes → w.Slain p := fun eq => by rwa [Slain, ← eq]
  have happens := w.apply_happens i
  generalize w.apply i = v at *
  cases happens with
  | @moves t fs s running =>
    obtain ⟨x, l, deeds, -, eq⟩ := h.sane.reaches running
    rw [eq, Slain, processes_land] at slain
    exact (Deeds.slain deeds slain).imp id fun kills => ⟨rfl, kills⟩
  | @resumes t rest =>
    refine .inl (same ?_)
    obtain ⟨ks, cur, eq⟩ := resume_eq { w with queue := rest } t
    rw [eq]
  | forgets | launches | subscribes => exact .inl (same rfl)
  | stirs stirred => exact .inl (same stirred.rest.2.2.2.2)

/-- Only the task that has started a process kills it. -/
theorem Flight.slain_before (h : Flight ms b w) (tended : w.Tended) (own : ∃ k, w.processes[p]? = some k ∧ k.owner = t)
    (other : ¬ w.Steps i t) (slain : (w.apply i).Slain p) : w.Slain p := by
  rcases h.apply_slain i slain with old | ⟨rfl, u, f, fs, s, running, child⟩
  · exact old
  · obtain ⟨k, found, owner⟩ := own
    obtain ⟨k', found', owner'⟩ := tended u p (by simp [charges, stackOf_running running, children, child])
    obtain rfl := Option.some.inj (found.symm.trans found')
    exact absurd ⟨rfl, f :: fs, s, (owner.symm.trans owner') ▸ running⟩ other

/-! ### One step of an invocation -/

theorem Stand.mono (h : Stand p done lapsed heeds cut late pre s) (up : late → late') :
    Stand p done lapsed heeds cut late' pre s := by
  cases h with
  | back own heeded result =>
    exact .back own heeded (result.imp_right fun end' => end'.imp_right fun ⟨eq, late⟩ => ⟨eq, up late⟩)
  | begun uncut => exact .begun uncut
  | following calm uncut => exact .following calm uncut
  | running calm heeded => exact .running calm heeded
  | limited calm uncut => exact .limited calm uncut
  | stopping calm heeded late => exact .stopping calm heeded fun eq => up (late eq)
  | reaping calm heeded late => exact .reaping calm heeded fun eq => up (late eq)

theorem Minding.now (pre : List Frame) (child : w.processes[p]?.map (·.child) = some c)
    (stand : Stand p c.outcome.1 w.overdue w.Heeds cut late pre s) (now : w.current = some (t, pre ++ base, s))
    (plain : ∀ f, pre ≠ [.limited p f]) (reason : w.Slain p → cut ∨ late) : w.Minding t p c cut late due base :=
  ⟨child, ⟨pre, .inl ⟨s, now, stand, fun f eq => absurd eq (plain f)⟩⟩, reason⟩

theorem Heeds.of_setup (h : v.Heeds) (setup : v.setup = w.setup) : w.Heeds := by rwa [Heeds, ← setup]

theorem minding_park (there : t < w.tasks.length) (child : w.processes[p]?.map (·.child) = some c) (above : pre ≠ [])
    (stand : ∀ (done lapsed : Outcome) (heeds : Prop) (s : Signal), s.IsCalm → Stand p done lapsed heeds cut late pre s)
    (plain : ∀ f, pre ≠ [.limited p f]) (reason : w.Slain p → cut ∨ late) (base : List Frame) (wait : Wait) :
    (w.park t (pre ++ base) wait).Minding t p c cut late due base := by
  obtain ⟨s, wait', found, calm⟩ := land_post there (pre ++ base) wait
  refine ⟨by rwa [processes_park],
    ⟨pre, .inr ⟨above, stand _ _ _, fun f eq => absurd eq (plain f), s, wait', calm, found⟩⟩, ?_⟩
  rwa [Slain, processes_park]

theorem minding_sleep (there : t < w.tasks.length) (child : w.processes[p]?.map (·.child) = some c) (above : pre ≠ [])
    (stand : ∀ (done lapsed : Outcome) (heeds : Prop) (s : Signal), s.IsCalm → Stand p done lapsed heeds cut late pre s)
    (plain : ∀ f, pre ≠ [.limited p f]) (reason : w.Slain p → cut ∨ late) (base : List Frame) (micros : Int) :
    (w.sleep t (pre ++ base) micros).Minding t p c cut late due base := by
  obtain ⟨s, wait', found, calm⟩ := sleep_post there (pre ++ base) micros
  refine ⟨by rwa [processes_sleep],
    ⟨pre, .inr ⟨above, stand _ _ _, fun f eq => absurd eq (plain f), s, wait', calm, found⟩⟩, ?_⟩
  rwa [Slain, processes_sleep]

theorem processes_conclude (o : Outcome) : (w.conclude t base o).processes = w.processes := by
  cases o <;> rfl

/-- An outcome is handed back only if the task has not been cancelled, or not heeded. -/
theorem minding_readOutcome (child : w.processes[p]?.map (·.child) = some c)
    (unheeded : ∀ v : World, v.setup = w.setup → v.Heeds → ¬ cut) (reason : w.Slain p → cut ∨ late) :
    (w.readOutcome t base p).Minding t p c cut late due base := by
  obtain ⟨k, found, rfl⟩ := Option.map_eq_some_iff.1 child
  have noted := Alike.noteRun w k.child.outcome.2
  have setup : ((w.noteRun k.child.outcome.2).conclude t base k.child.outcome.1).setup = w.setup := by
    refine Eq.trans ?_ noted.setup
    cases k.child.outcome.1 <;> rfl
  have processes : ((w.noteRun k.child.outcome.2).conclude t base k.child.outcome.1).processes = w.processes :=
    (processes_conclude _).trans noted.processes
  simp only [readOutcome, found]
  refine .now (w := (w.noteRun k.child.outcome.2).conclude t base k.child.outcome.1)
    (s := .value (.outcome k.child.outcome.1)) [] (processes ▸ child)
    (.back (by simp) (fun heeds cut => absurd cut (unheeded _ setup heeds)) (.inr (.inl rfl))) rfl (by simp)
    fun slain => reason ?_
  rwa [Slain, processes] at slain

theorem minding_reaped (child : w.processes[p]?.map (·.child) = some c) (heeded : why = .cancelled ↔ cut)
    (up : why = .timedOut → late) : (w.reaped t base why).Minding t p c cut late due base := by
  cases why with
  | timedOut =>
    have uncut : ¬ cut := fun h => nomatch heeded.2 h
    exact .now (s := .value (.outcome w.overdue)) [] child
      (.back nofun (fun _ h => absurd h uncut) (.inr (.inr ⟨rfl, up rfl⟩))) rfl nofun fun _ => .inr (up rfl)
  | cancelled =>
    exact .now [] child (.back (fun _ => heeded.1 rfl) (fun _ _ => rfl) (.inl rfl)) rfl nofun fun _ => .inl (heeded.1 rfl)

theorem child_setProcess (child : w.processes[p]?.map (·.child) = some c) (x : ProcessState) :
    (w.setProcess p x).processes[p]?.map (·.child) = some c := by
  obtain ⟨k, found, rfl⟩ := Option.map_eq_some_iff.1 child
  simp [World.setProcess, found]

theorem minding_kill (there : t < w.tasks.length) (child : w.processes[p]?.map (·.child) = some c)
    (heeded : why = .cancelled ↔ cut) (up : why = .timedOut → late) :
    (w.kill t base p why).Minding t p c cut late due base := by
  have reason : cut ∨ late := by
    cases why with
    | timedOut => exact .inr (up rfl)
    | cancelled => exact .inl (heeded.1 rfl)
  unfold kill
  split
  · let x := (w.setProcess p .killed).emit (.killed w.clock p)
    have child' : x.processes[p]?.map (·.child) = some c := child_setProcess child .killed
    dsimp only
    split
    · exact minding_reaped (w := x) child' heeded up
    · split
      · exact minding_reaped (w := x.emit (.reaped w.clock p)) child' heeded up
      · exact minding_sleep (w := x) there child' (List.cons_ne_nil _ _) (fun _ _ _ s calm => .reaping calm heeded up) nofun
          (fun _ => reason) base _
  · exact minding_reaped child heeded up

theorem minding_stopFollower (there : t < w.tasks.length) (child : w.processes[p]?.map (·.child) = some c)
    (heeded : why = .cancelled ↔ cut) (up : why = .timedOut → late) (reason : w.Slain p → cut ∨ late) (f : TaskId) :
    (w.stopFollower t base p f why).Minding t p c cut late due base := by
  let x := w.modifyTask f fun k => { k with watchers := [.report t f] }
  have stopped : Nudges anyone x (x.cancel f) := cancel_nudges x f
  have there' : t < (x.cancel f).tasks.length := Nat.lt_of_lt_of_eq there (length_stopped w t f).symm
  have reason' : (x.cancel f).Slain p → cut ∨ late := by
    rw [Slain, stopped.processes]
    exact reason
  exact minding_park (w := x.cancel f) there' (stopped.processes ▸ child) (List.cons_ne_nil _ _)
    (fun _ _ _ s calm => .stopping (p := p) calm heeded up) (by simp) reason' base (.follower f)

theorem minding_processExited (child : w.processes[p]?.map (·.child) = some c) (uncut : ¬ cut) :
    (w.processExited t (.running p :: base) p).Minding t p c cut late due base := by
  have value : ∀ done lapsed heeds x, Stand p done lapsed heeds cut late [.running p] (.value x) :=
    fun _ _ _ x => .running trivial ⟨nofun, fun h => absurd h uncut⟩
  unfold processExited
  split
  · refine .now [.running p] (child_setProcess child .exited) (value _ _ _ _) rfl nofun fun slain => ?_
    simp [Slain, setProcess, World.ret, World.go, World.emit] at slain
  · rename_i none
    refine .now [.running p] child (value _ _ _ _) rfl nofun fun slain => ?_
    simp [Slain, none, World.ret, World.go] at slain

theorem minding_beginFollow (there : t < w.tasks.length) (child : w.processes[p]?.map (·.child) = some c)
    (uncut : ¬ cut)
    (reason : w.Slain p → cut ∨ late) : (w.beginFollow t (.running p :: base) p).Minding t p c cut late due base := by
  unfold beginFollow
  split
  · split
    · exact minding_processExited child uncut
    · exact minding_sleep there child (List.cons_ne_nil _ _) (fun _ _ _ s calm => .following calm uncut) nofun reason base _
  · exact .now (s := .value _) [.running p] child (.running trivial (by simpa using uncut)) rfl nofun reason

/-- Below a frame that does not wait with a limit, a task quits just if it is moved by its cancellation. -/
theorem quits_running (running : w.current = some (t, fs, s)) (plain : ∀ p f rest, fs ≠ .limited p f :: rest) :
    w.Quits t ↔ s = .cancelled := by
  refine ⟨?_, fun eq => ⟨fs, s, running, .inl eq⟩⟩
  rintro ⟨fs', s', now, eq | ⟨p, f, rest, frames, -⟩⟩
  · cases running.symm.trans now
    exact eq
  · cases running.symm.trans now
    exact absurd frames (plain p f rest)

/-- A task that waits with a limit quits if the task that follows its process has been cancelled, too. -/
theorem quits_limited {f : TaskId} (running : w.current = some (t, .limited p f :: fs, s)) :
    w.Quits t ↔ s = .cancelled ∨ w.hasEnded f = true ∧ w.wasCancelled f = true := by
  constructor
  · rintro ⟨fs', s', now, eq | ⟨p', f', rest, frames, ended, stopped⟩⟩
    · cases running.symm.trans now
      exact .inl eq
    · cases running.symm.trans now
      cases frames
      exact .inr ⟨ended, stopped⟩
  · rintro (eq | ⟨ended, stopped⟩)
    · exact ⟨_, s, running, .inl eq⟩
    · exact ⟨_, s, running, .inr ⟨p, f, fs, rfl, ended, stopped⟩⟩

/-- The wait with a limit is over. -/
theorem minding_limitedWaitOver (there : t < w.tasks.length)
    (child : w.processes[p]?.map (·.child) = some c) {f : TaskId}
    (running : w.current = some (t, .limited p f :: base, s)) (limited : w.setup.limit.isZero = false)
    (moved : why = .cancelled ↔ s = .cancelled) (up : w.hasEnded f = false → why = .timedOut → late)
    (reason : w.Slain p → w.Quits t ∨ late) : (w.limitedWaitOver t base p f why).Minding t p c
    (w.Quits t) late due base := by
  have quits := quits_limited running
  unfold limitedWaitOver
  split
  · rename_i ended
    split
    · rename_i stopped
      exact minding_kill there child (by simp [quits, ended, stopped]) nofun
    · rename_i well
      have heard : w.Quits t ↔ why = .cancelled := by simp [quits, well, moved]
      split
      · rename_i heeds
        simp only [Bool.and_eq_true, decide_eq_true_eq] at heeds
        exact minding_reaped child (by simpa [heard] using heeds.2) (by simp)
      · rename_i unheeded
        refine minding_readOutcome child (fun v setup heeds quit => ?_) reason
        have late : w.setup.heedsLate = true := (heeds.of_setup setup).resolve_left (by simp [limited])
        simp [late, heard.1 quit] at unheeded
  · rename_i lasts
    have lasts : w.hasEnded f = false := by simpa using lasts
    exact minding_stopFollower there child (by simp [quits, lasts, moved]) (up lasts) reason f

/-- One step of a task that minds a process. It heeds its cancellation if it is moved by one. -/
theorem Stand.move (h : Stand p done lapsed heeds cut late pre s) (there : t < w.tasks.length)
    (child : w.processes[p]?.map (·.child) = some c) (above : pre ≠ []) (running : w.current = some (t, pre ++ base, s))
    (woken : ∀ f, pre = [.limited p f] → w.setup.limit.isZero = false ∧ (s = .cancelled ∨ w.Over f due))
    (up : w.setup.limit.isZero = false → due ≤ w.clock → late)
    (reason : w.Slain p → cut ∨ late) : (w.move t (pre ++ base) s).Minding t p c (cut ∨ w.Quits t) late due base := by
  have reason' : w.Slain p → (cut ∨ w.Quits t) ∨ late := fun slain => (reason slain).imp .inl id
  cases h with
  | back => exact absurd rfl above
  | begun uncut =>
    have quits := quits_running running (by simp)
    exact minding_beginFollow there child (by simpa [quits] using uncut) reason'
  | @following _ calm uncut =>
    have quits := quits_running running (by simp)
    cases s with
    | start | fault => exact calm.elim
    | value => exact minding_processExited child (by simpa [quits] using uncut)
    | cancelled => exact .now (s := .cancelled) [.running p] child (.running trivial (by simp [quits])) rfl nofun reason'
  | @running _ calm heeded =>
    have quits := quits_running running (by simp)
    cases s with
    | start | fault => exact calm.elim
    | value =>
      have uncut : ¬ cut := fun h => nomatch heeded.2 h
      exact minding_readOutcome child (fun _ _ _ => by simpa [quits] using uncut) reason'
    | cancelled => exact minding_kill there child (by simp [quits]) nofun
  | @limited f _ calm uncut =>
    obtain ⟨limited, lapsed⟩ := woken f rfl
    have same : (cut ∨ w.Quits t) = w.Quits t := by simp [uncut]
    rw [same] at reason' ⊢
    cases s with
    | start | fault => exact calm.elim
    | value =>
      refine minding_limitedWaitOver there child running limited (by simp) (fun lasts _ => ?_) reason'
      rcases lapsed.resolve_left nofun with time | ⟨-, ended⟩
      · exact up limited time
      · rw [lasts] at ended
        cases ended
    | cancelled => exact minding_limitedWaitOver there child running limited (by simp) (fun _ => nofun) reason'
  | @stopping why _ calm heeded late =>
    have quits := quits_running running (by simp)
    cases s with
    | start | fault => exact calm.elim
    | value => exact minding_kill there child (by simpa [quits] using heeded) late
    | cancelled => exact minding_kill there child (by simp [quits]) nofun
  | @reaping why _ calm heeded late =>
    have quits := quits_running running (by simp)
    cases s with
    | start | fault => exact calm.elim
    | value => exact minding_reaped (w := w.emit _) child (by simpa [quits] using heeded) late
    | cancelled => exact .now [] child (.back (by simp [quits]) (fun _ _ => rfl) (.inl rfl)) rfl nofun reason'

/-! ### How an invocation begins -/

theorem Minding.mono (h : w.Minding t p c cut late due base) (up : late → late') :
    w.Minding t p c cut late' due base := by
  obtain ⟨child, ⟨pre, place⟩, reason⟩ := h
  refine ⟨child, ⟨pre, ?_⟩, fun slain => (reason slain).imp id up⟩
  rcases place with ⟨s, now, stand, woken⟩ | ⟨above, stand, abides, post⟩
  · exact .inl ⟨s, now, stand.mono up, woken⟩
  · exact .inr ⟨above, fun s calm => (stand s calm).mono up, abides, post⟩

/-- A limit below zero is no time at all. -/
theorem millionths_negative {x : Decimal.Number} (h : x.isNegative = true) : x.millionths.toNat = 0 := by
  cases x with
  | whole n =>
    simp only [Decimal.Number.isNegative, decide_eq_true_eq] at h
    simp only [Decimal.Number.millionths]
    omega
  | real x =>
    have negative : x.isNegative = true := by simp_all [Decimal.Number.isNegative]
    simp only [Decimal.Number.millionths, negative]
    split
    · simp
    · rfl

theorem minding_awaitProcess (there : t < w.tasks.length) (child : w.processes[p]?.map (·.child) = some c)
    (unalarmed : ∀ a ∈ w.alarms, a.task ≠ t) (spared : ¬ w.Slain p)
    (up : w.setup.limit.isZero = false → w.setup.limit.isNegative = true → late) :
    (w.awaitProcess t base p).Minding t p c False late w.deadline base := by
  unfold awaitProcess
  dsimp only
  split
  · exact .now (s := .start (.follow p)) [.running p] child (.begun id) rfl nofun fun slain => absurd slain spared
  · rename_i limited
    have limited : w.setup.limit.isZero = false := by simpa using limited
    let y := (w.spawn (.follow p) fun f => [.report t f]).2
    have there' : t < y.tasks.length := lt_length_spawn there _ _
    split
    · rename_i negative
      exact minding_stopFollower (w := y) there' child (by simp) (fun _ => up limited negative)
        (fun slain => absurd slain spared) _
    · let n := w.setup.limit.millionths.toNat
      let fs : List Frame := .limited p w.tasks.length :: base
      have limit : ((y.setAlarm t n).park t fs (.follower w.tasks.length)).setup = w.setup := setup_park _ _ _ _
      have processes : ((y.setAlarm t n).park t fs (.follower w.tasks.length)).processes = w.processes :=
        processes_park _ _ _ _
      obtain ⟨s, wait, found, calm⟩ := land_post (w := y.setAlarm t n) there' fs (.follower w.tasks.length)
      refine ⟨processes ▸ child,
        ⟨[.limited p w.tasks.length], .inr ⟨List.cons_ne_nil _ _, fun s calm => .limited calm id, ?_,
        s, wait, calm, found⟩⟩, fun slain => absurd ?_ spared⟩
      · rintro f eq
        obtain rfl : w.tasks.length = f := by simpa using eq
        refine ⟨?_, timed_abides (w := y) there' unalarmed fs _ n⟩
        show ((y.setAlarm t n).park t fs (.follower w.tasks.length)).setup.limit.isZero = false
        rw [limit]
        exact limited
      · rwa [Slain, ← processes]

/-- A task that starts a process minds it. -/
theorem minding_beginCompile (there : t < w.tasks.length) (unalarmed : ∀ a ∈ w.alarms, a.task ≠ t)
    (later : w.clock ≤ (w.beginCompile t base text).clock)
    (started : w.processes.length < (w.beginCompile t base text).processes.length) :
    (w.beginCompile t base text).Minding t w.processes.length (w.setup.child text) False
      (w.Expired (w.beginCompile t base text)) w.deadline base := by
  rcases beginCompile_begins w t base text with
    ⟨same, -⟩ | ⟨-, x, eq, ⟨k, processes, -, alive, child⟩, x_setup, tasks, alarms, clock⟩
  · rw [same] at started
    exact absurd started (Nat.lt_irrefl _)
  · have due : x.deadline = w.deadline := by rw [deadline, deadline, clock, x_setup]
    rw [eq] at later ⊢
    rw [← due]
    refine minding_awaitProcess (tasks ▸ there) (by simp [processes, child]) (alarms ▸ unalarmed)
      (by simp [Slain, processes, alive])
      fun limited negative => ?_
    rw [x_setup] at limited negative
    refine ⟨limited, ?_⟩
    rw [deadline, millionths_negative negative]
    exact later

/-! ### The course of an invocation -/

theorem CutShort.off {inputs : List Input} (h : w.CutShort t inputs) : w.CutOff t inputs := by
  obtain ⟨xs, ys, fs, eq, now⟩ := h
  exact ⟨xs, ys, eq, fs, .cancelled, now, .inl rfl⟩

theorem cutOff_nil : ¬ w.CutOff t [] := by
  rintro ⟨xs, ys, eq, -⟩
  simp at eq

theorem cutOff_snoc {xs : List Input} : w.CutOff t (xs ++ [i]) ↔ w.CutOff t xs ∨ i = .tick ∧ (w.run xs).Quits t := by
  constructor
  · rintro ⟨ys, zs, eq, quits⟩
    rcases List.eq_nil_or_concat zs with rfl | ⟨zs, j, rfl⟩
    · obtain ⟨rfl, same⟩ := List.append_inj' eq rfl
      exact .inr ⟨by simpa using same, quits⟩
    · have split : xs ++ [i] = (ys ++ .tick :: zs) ++ [j] := by simpa using eq
      obtain ⟨rfl, -⟩ := List.append_inj' split rfl
      exact .inl ⟨ys, zs, rfl, quits⟩
  · rintro (⟨ys, zs, rfl, quits⟩ | ⟨rfl, quits⟩)
    · exact ⟨ys, zs ++ [i], by simp, quits⟩
    · exact ⟨xs, [], rfl, quits⟩

/-- Where a task that minds a process is when it runs. -/
theorem Minding.stand (h : w.Minding t p c cut late due base) (flight : Flight ms b w)
    (running : w.current = some (t, fs, s)) :
    ∃ pre, fs = pre ++ base ∧ Stand p c.outcome.1 w.overdue w.Heeds cut late pre s ∧
      ∀ f, pre = [.limited p f] → w.setup.limit.isZero = false ∧ (s = .cancelled ∨ w.Over f due) := by
  obtain ⟨pre, ⟨s', now, stand, woken⟩ | ⟨-, stand, abides, s', wait, calm, found⟩⟩ := h.place
  · cases running.symm.trans now
    exact ⟨pre, rfl, stand, woken⟩
  · obtain ⟨frames, signal, -⟩ := Post.mk.inj (Option.some.inj ((flight.post?_running running).symm.trans found))
    refine ⟨pre, frames, signal ▸ stand s' calm, fun f eq => ⟨(abides f eq).1, ?_⟩⟩
    -- a task that runs does not wait
    obtain ⟨k, at_t, runs⟩ := (flight.steady.midst.agrees t).2 ⟨fs, s, running⟩
    cases (abides f eq).2 with
    | waits found' wait =>
      obtain rfl := Option.some.inj (at_t.symm.trans found')
      cases runs.symm.trans wait
    | woken found' wait =>
      obtain rfl := Option.some.inj (at_t.symm.trans found')
      cases runs.symm.trans wait

/-- Others leave a task that minds a process where it is, or have it woken for a reason. -/
theorem Flight.spares_minding (h : Flight ms b w) (balanced : w.ledger.Balanced) (tended : w.Tended)
    (minding : w.Minding t p c cut late due base) (own : ∃ k, w.processes[p]? = some k ∧ k.owner = t)
    (allowed : i.IsPublic)
    (aside : ¬ w.Steps i t) : (w.apply i).Minding t p c cut late due base := by
  obtain ⟨child, ⟨pre, place⟩, reason⟩ := minding
  have fixed := h.sane.apply_fixed i
  have limit : (w.apply i).setup.limit = w.setup.limit := fixed.limit
  have heeds : (w.apply i).Heeds = w.Heeds := by simp only [Heeds, fixed.limit, fixed.heedsLate]
  have overdue : (w.apply i).overdue = w.overdue := by simp only [World.overdue, fixed.limit]
  have child' : (w.apply i).processes[p]?.map (·.child) = some c := by
    obtain ⟨k, found, rfl⟩ := Option.map_eq_some_iff.1 child
    obtain ⟨k', found', same⟩ := (h.apply_bred i).1.old found
    simp [found', same]
  rw [← heeds, ← overdue] at place
  refine ⟨child', ⟨pre, ?_⟩, fun slain => reason (h.slain_before tended own aside slain)⟩
  rcases place with ⟨s, now, stand, woken⟩ | ⟨higher, stand, abides, s, wait, calm, found⟩
  · have still : i ≠ .tick := fun tick => aside ⟨tick, _, _, now⟩
    refine .inl ⟨s, current_apply now still, stand, fun f eq => ?_⟩
    obtain ⟨limited, reason⟩ := woken f eq
    exact ⟨limit ▸ limited, reason.imp id (h.apply_over allowed)⟩
  · obtain ⟨s', wait', calm', found'⟩ := h.apply_calm allowed found calm aside
    by_cases waits : ∃ f, pre = [.limited p f]
    · obtain ⟨f, rfl⟩ := waits
      obtain ⟨limited, abides⟩ := abides f rfl
      rcases h.apply_abides balanced allowed abides with still | ⟨fs, x, now, woken⟩
      · refine .inr ⟨higher, stand, fun g eq => ?_, s', wait', calm', found'⟩
        obtain rfl : f = g := by simpa using eq
        exact ⟨limit ▸ limited, still⟩
      · obtain ⟨frames, signal, -⟩ :=
          Post.mk.inj (Option.some.inj (((h.apply allowed).post?_running now).symm.trans found'))
        refine .inl ⟨x, frames ▸ now, stand x (signal ▸ calm'), fun g eq => ?_⟩
        obtain rfl : f = g := by simpa using eq
        exact ⟨limit ▸ limited, woken⟩
    · exact .inr ⟨higher, stand, fun f eq => absurd ⟨f, eq⟩ waits, s', wait', calm', found'⟩

/-- Whatever happens, a task that minds a process goes on minding it, until the compile is back. -/
theorem Flight.apply_minding (h : Flight ms b w) (balanced : w.ledger.Balanced) (tended : w.Tended)
    (minding : w.Minding t p c cut late due base) (own : ∃ k, w.processes[p]? = some k ∧ k.owner = t)
    (up : w.setup.limit.isZero = false → due ≤ w.clock → late) (allowed : i.IsPublic)
    (above : base.length < (w.stackOf t).length) :
    (w.apply i).Minding t p c (cut ∨ i = .tick ∧ w.Quits t) late due base := by
  by_cases steps : w.Steps i t
  · obtain ⟨rfl, fs, s, running⟩ := steps
    obtain ⟨pre, rfl, stand, woken⟩ := minding.stand h running
    have higher : pre ≠ [] := by
      rintro rfl
      rw [stackOf_running running] at above
      exact Nat.lt_irrefl _ above
    have same : (cut ∨ Input.tick = .tick ∧ w.Quits t) = (cut ∨ w.Quits t) := by simp
    rw [same, show w.apply .tick = w.move t (pre ++ base) s from tick_running running]
    exact stand.move (h.there running) minding.child higher running woken up minding.reason
  · have same : (cut ∨ i = .tick ∧ w.Quits t) = cut := by
      refine propext ⟨fun h => h.resolve_right ?_, .inl⟩
      rintro ⟨tick, fs, s, now, -⟩
      exact steps ⟨tick, fs, s, now⟩
    rw [same]
    exact h.spares_minding balanced tended minding own allowed steps

/-- A process that has been started belongs to the task that has started it. -/
theorem tick_owned (begun : w.current = some (t, base, .start (.compile text)))
    (started : w.processes.length < w.tick.processes.length) :
    ∃ k, w.tick.processes[w.processes.length]? = some k ∧ k.owner = t := by
  rw [show w.tick = w.beginCompile t base text from tick_running begun] at started ⊢
  rcases beginCompile_begins w t base text with ⟨same, -⟩ | ⟨-, x, eq, ⟨k, processes, own, -⟩, -⟩
  · rw [same] at started
    exact absurd started (Nat.lt_irrefl _)
  · exact ⟨k, by rw [eq, processes_awaitProcess, processes, List.getElem?_concat_length], own⟩

theorem Guards.longer {q : Post} (h : w.Guards p fs q) : fs.length < q.frames.length := by
  cases h with
  | following => exact Nat.lt_succ_of_lt (Nat.lt_succ_self _)
  | begun | broken | limited | stopping => exact Nat.lt_succ_self _

/-- A task that has started a process is not back as long as it is alive. -/
theorem Flight.back_owns {mid : List Input} (h : Flight ms b w)
    (begun : w.current = some (t, base, .start (.compile text)))
    (started : w.processes.length < w.tick.processes.length) (allowed : ∀ i ∈ mid, i.IsPublic)
    (back : (w.tick.run mid).current = some (t, base, s)) : ¬ (w.tick.run mid).Owns u w.processes.length := by
  intro owns
  have begins : w.tick = w.beginCompile t base text := tick_running begun
  have next : Flight _ _ w.tick := h.apply (i := .tick) trivial
  have owned := next.run_owns allowed started owns
  have new : ¬ w.Owns u w.processes.length := by
    rintro ⟨k, found, -⟩
    exact Nat.lt_irrefl _ (List.getElem?_eq_some_iff.1 found).1
  have guarded : w.tick.Guarded t w.processes.length base := by
    rw [begins] at next owned ⊢
    exact (beginCompile_guarded (h.there begun) h.rung next owned new).2
  obtain ⟨q, found, guards⟩ := next.run_guarded allowed guarded started owns
  obtain rfl := Option.some.inj (((next.run allowed).post?_running back).symm.trans found)
  exact Nat.lt_irrefl _ guards.longer

theorem Flight.run_owned (h : Flight ms b w) {inputs : List Input} (allowed : ∀ i ∈ inputs, i.IsPublic)
    (own : ∃ k, w.processes[p]? = some k ∧ k.owner = u) : ∃ k, (w.run inputs).processes[p]? = some k ∧ k.owner = u := by
  induction inputs generalizing ms w with
  | nil => exact own
  | cons i rest ih =>
    exact ih (h.apply (allowed i (by simp))) (fun j mem => allowed j (List.mem_cons_of_mem i mem))
      ((h.apply_bred i).1.owned own)

/-- A task that is back from minding a process comes with its cancellation only if it was cut off, and does if that is
heeded. Otherwise it has what the process comes to, or learns that the time is up, which it is. -/
theorem Minding.back (h : w.Minding t p c cut late due base) (flight : Flight ms b w)
    (now : w.current = some (t, base, s)) :
    (s = .cancelled → cut) ∧ (w.Heeds → cut → s = .cancelled) ∧
      (s = .cancelled ∨ s = .value (.outcome c.outcome.1) ∨ s = .value (.outcome w.overdue) ∧ late) := by
  obtain ⟨pre, frames, stand, -⟩ := h.stand flight now
  obtain rfl : pre = [] := by simpa using frames
  cases stand with
  | back own heeded result => exact ⟨own, heeded, result⟩

/-- What a task minds as long as it has not come back. -/
theorem Flight.run_minding {mid : List Input} (h : Flight ms b w) (balanced : w.ledger.Balanced) (tended : w.Tended)
    (begun : w.current = some (t, base, .start (.compile text)))
    (started : w.processes.length < w.tick.processes.length)
    (allowed : ∀ i ∈ mid, i.IsPublic)
    (above : ∀ n < mid.length, base.length < ((w.tick.run (mid.take n)).stackOf t).length)
    {n : Nat} (le : n ≤ mid.length) :
    (w.tick.run (mid.take n)).Minding t w.processes.length (w.setup.child text) (w.tick.CutOff t (mid.take n))
      (w.Expired (w.tick.run (mid.take n))) w.deadline base := by
  have begins : w.tick = w.beginCompile t base text := tick_running begun
  have next : Flight _ _ w.tick := h.apply (i := .tick) trivial
  have own := tick_owned begun started
  have unalarmed : ∀ a ∈ w.alarms, a.task ≠ t :=
    Midst.unalarmed ⟨begun ▸ h.steady.midst.agrees, begun ▸ h.steady.midst.orderly, .refl _⟩
  have all : ∀ n ≤ mid.length, (∃ ms, Flight ms b (w.tick.run (mid.take n))) ∧
      (w.tick.run (mid.take n)).ledger.Balanced ∧ (w.tick.run (mid.take n)).Tended ∧
      (w.tick.run (mid.take n)).setup.limit = w.setup.limit ∧
      (∃ k, (w.tick.run (mid.take n)).processes[w.processes.length]? = some k ∧ k.owner = t) ∧
      (w.tick.run (mid.take n)).Minding t w.processes.length (w.setup.child text) (w.tick.CutOff t (mid.take n))
        (w.Expired (w.tick.run (mid.take n))) w.deadline base := by
    intro n
    induction n with
    | zero =>
      intro _
      refine ⟨⟨_, next⟩, h.apply_balanced balanced .tick, h.apply_tended (i := .tick) tended trivial,
        (h.sane.apply_fixed .tick).limit, own, ?_⟩
      have uncut : w.tick.CutOff t (mid.take 0) = False := eq_false cutOff_nil
      have later : w.clock ≤ w.tick.clock := h.sane.apply_clock .tick
      rw [uncut]
      show w.tick.Minding t w.processes.length (w.setup.child text) False (w.Expired w.tick) w.deadline base
      rw [begins] at later started ⊢
      exact minding_beginCompile (h.there begun) unalarmed later started
    | succ n ih =>
      intro lt
      obtain ⟨⟨ms', flight⟩, balanced', tended', limit, own', minding⟩ := ih (Nat.le_of_lt lt)
      have given := allowed mid[n] (List.getElem_mem lt)
      have later := flight.sane.apply_clock mid[n]
      have goesOn := flight.apply_minding balanced' tended' minding own'
        (fun limited up => ⟨limit ▸ limited, up⟩) given (above n lt)
      rw [run_take_succ _ lt, List.take_succ_eq_append_getElem lt, cutOff_snoc]
      exact ⟨⟨_, flight.apply given⟩, flight.apply_balanced balanced' _, flight.apply_tended tended' given,
        (flight.sane.apply_fixed _).limit.trans limit, (flight.apply_bred _).1.owned own',
        goesOn.mono fun ⟨limited, up⟩ => ⟨limited, Nat.le_trans up later⟩⟩
  exact (all n le).2.2.2.2.2

/-- A task has begun a compile, which has started a process, and has not been back since. If it is back now, the
process has exited or been killed; if the task was cancelled meanwhile, which is heeded, it comes back with its
cancellation; and whenever it does, it has counted neither a success nor a failure. Back or not: if the process has been
killed, the time is up or the task has been cut off. -/
theorem compile_minds_child {start : World} (new : start.IsNew) {before mid : List Input}
    (allowed : ∀ i, i ∈ before ∨ i ∈ mid → i.IsPublic)
    (begun : (start.run before).current = some (t, base, .start (.compile text)))
    (started : (start.run before).processes.length < (start.run before).tick.processes.length)
    (away : ∀ n < mid.length, base.length < (((start.run before).tick.run (mid.take n)).stackOf t).length) :
    (∀ s, ((start.run before).tick.run mid).current = some (t, base, s) →
      (∃ k, ((start.run before).tick.run mid).processes[(start.run before).processes.length]? = some k ∧
        k.owner = t ∧ k.state ≠ .alive) ∧
      (start.Heeds → (start.run before).tick.CutShort t mid → s = .cancelled) ∧
      (s = .cancelled → (start.run before).tick.CutOff t mid ∧
        (start.run before).ownScores t (.tick :: mid) = [.started])) ∧
    (((start.run before).tick.run mid).Slain (start.run before).processes.length →
      (start.run before).tick.CutOff t mid ∨ (start.run before).Expired ((start.run before).tick.run mid)) := by
  have given : ∀ i ∈ mid, i.IsPublic := fun i mem => allowed i (.inr mem)
  have earlier : ∀ i ∈ before, i.IsPublic := fun i mem => allowed i (.inl mem)
  have flight := run_flight new earlier
  have tended := run_tended new earlier
  have balanced := run_balanced new earlier
  have fixed := new.flight.sane.run_fixed earlier
  have heeds : start.Heeds → (start.run before).Heeds := by
    rw [Heeds, Heeds, fixed.limit, fixed.heedsLate]
    exact id
  generalize start.run before = w at *
  have next : Flight _ _ w.tick := flight.apply (i := .tick) trivial
  have later : Flight _ _ (w.tick.run mid) := next.run given
  have fixed' := (flight.sane.apply_fixed .tick).trans (next.sane.run_fixed given)
  have minding := flight.run_minding balanced tended begun started given away (Nat.le_refl _)
  rw [List.take_length] at minding
  refine ⟨fun s back => ⟨?_, fun heeded cut => ?_, ?_⟩, minding.reason⟩
  · obtain ⟨k, found, own⟩ := next.run_owned given (tick_owned begun started)
    exact ⟨k, found, own, fun alive => flight.back_owns begun started given back ⟨k, found, own, alive⟩⟩
  · refine (minding.back later back).2.1 ?_ cut.off
    have now := heeds heeded
    rwa [Heeds, ← fixed'.limit, ← fixed'.heedsLate] at now
  · rintro rfl
    refine ⟨(minding.back later back).1 rfl, ?_⟩
    rw [flight.compile_scores begun given ⟨away, back⟩]
    have begins : w.tick = w.beginCompile t base text := tick_running begun
    rw [begins] at started
    rcases beginCompile_begins w t base text with ⟨same, -⟩ | ⟨⟨exe, found⟩, -⟩
    · rw [same] at started
      exact absurd started (Nat.lt_irrefl _)
    · simp [found, Signal.fate, Fate.counter?]

end

/-- An editor whose compiler takes a thousandth of a second, with a limit. A cancellation is heeded even at the end. -/
def keenSample : World :=
  start ⟨0, .whole 5, true, fun _ => ⟨none, none, 1000, 0, [], .bytes [123, 125], false, none⟩⟩ ⟨.ok (some "ink"), []⟩ (.new "") []

theorem isNew_keenSample : keenSample.IsNew := isNew_start _ _ _ nofun

/-- A compile under a limit is cancelled after its process has ended, and before it has learned so. -/
def cutting : List Input := .tick :: .tick :: .jump :: .tick :: .tick :: .tick :: .cancel 0 :: List.replicate 3 .tick

theorem isPublic_cutting : ∀ i ∈ cutting, i.IsPublic := by
  simp [cutting, Input.IsPublic]

/-- Its process has ended by itself, and yet it comes back with the cancellation, and has counted
neither a success nor a failure. -/
theorem cutting_minds_child :
    (∃ k, ((keenSample.run [.begin (.compile "x")]).tick.run cutting).processes[0]? = some k ∧ k.owner = 0 ∧
      k.state ≠ .alive) ∧
    (keenSample.run [.begin (.compile "x")]).tick.CutOff 0 cutting ∧
    (keenSample.run [.begin (.compile "x")]).ownScores 0 (.tick :: cutting) = [.started] := by
  have allowed : ∀ i, i ∈ [Input.begin (.compile "x")] ∨ i ∈ cutting → i.IsPublic := by
    rintro i (mem | mem)
    · rw [List.mem_singleton.1 mem]
      exact .compile _
    · exact isPublic_cutting i mem
  have away : ∀ n < cutting.length,
      0 < (((keenSample.run [.begin (.compile "x")]).tick.run (cutting.take n)).stackOf 0).length := by decide
  obtain ⟨back, -⟩ := compile_minds_child isNew_keenSample allowed rfl (by decide) away
  have cut : (keenSample.run [.begin (.compile "x")]).tick.CutShort 0 cutting :=
    ⟨cutting.take 9, [], [.limited 0 1], rfl, rfl⟩
  obtain ⟨s, now⟩ : ∃ s, ((keenSample.run [.begin (.compile "x")]).tick.run cutting).current = some (0, [], s) := ⟨_, rfl⟩
  obtain ⟨past, heeded, counted⟩ := back s now
  exact ⟨past, counted (heeded (.inr rfl) cut)⟩

end World
end InkPreview.Live
