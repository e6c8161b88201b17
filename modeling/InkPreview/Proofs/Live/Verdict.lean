import InkPreview.Proofs.Compile.Outcome
import InkPreview.Proofs.Live.Errand
import InkPreview.Proofs.Live.Invocation
/-!
Verdicts. A compile that has started a process and is not cancelled comes back with what the process comes to, if nobody
has killed it meanwhile, and with the time being up otherwise. Main statement: `compile_contract`.
-/
namespace InkPreview.Live

open Text

/-- The compiler is found, gets the text and can be started on it. -/
def Launches (found : Except Fault (Option String)) (c : Child) : Prop :=
  (∃ exe, found = .ok (some exe)) ∧ c.writeFault = none ∧ c.startFault = none

/-- What a compile that was not cancelled comes to, `s`, where the search for the compiler has found
`found`, the compiler behaves like `c` and, if it was started, its process has ended by itself and
in time just if `ended`. -/
structure Contract (found : Except Fault (Option String)) (c : Child) (ended : Prop) (s : Signal) : Prop where
  success : ∀ a, s = .value (.outcome (.success a)) ↔ Launches found c ∧ ended ∧ c.exitCode = 0 ∧
    ∃ cs, c.output.Holds cs ∧ (∃ x ∈ cs, isBlank x = false) ∧ a = String.ofList (unifyLines cs)
  /-- Text of one kind of line end is handed over as the compiler has written it, with a mark before it or without. -/
  written : ∀ text : String, Launches found c → ended → c.exitCode = 0 → (∃ x ∈ text.toList, isBlank x = false) →
    '\r' ∉ text.toList → text.toList.head? ≠ some '\ufeff' →
    (c.output = .bytes (Utf8.encode text.toList) ∨ c.output = .bytes (Utf8.mark ++ Utf8.encode text.toList)) →
    s = .value (.outcome (.success text))
  failed : Launches found c → ended → c.exitCode ≠ 0 → ∃ m, s = .value (.outcome (.failed .processError m)) ∧
    ∀ m', m' ≠ "" → c.printed = Utf8.encode m'.toList → m = m'
  solid : ∀ a, s = .value (.outcome (.success a)) → ∃ x ∈ a.toList, isBlank x = false

section
variable {found : Except Fault (Option String)} {c : Child} {ended : Prop} {s : Signal} {a : String}

theorem compileAnswer_launches (launches : Launches found c) : compileAnswer found c = .ok c.outcome.1 := by
  obtain ⟨⟨exe, rfl⟩, written, started⟩ := launches
  simp [compileAnswer, written, started]

theorem compileAnswer_success (success : compileAnswer found c = .ok (.success a)) : Launches found c := by
  unfold compileAnswer at success
  split at success
  · cases success
  · cases success
  · split at success
    · cases success
    · cases success
    · cases success
    · cases success
    · rename_i written started
      exact ⟨⟨_, rfl⟩, written, started⟩

/-- A compile keeps to its contract if it comes to what the answers of the search and of the compiler decide, or, where
the process does not end in time, to a failure. -/
theorem Contract.of_answer (h : (Launches found c → ended) ∧ s = answerSignal (compileAnswer found c) ∨
    ¬ ended ∧ ∃ m, s = .value (.outcome (.failed .processError m))) : Contract found c ended s := by
  have comes (launches : Launches found c) (timely : ended) : s = .value (.outcome c.outcome.1) := by
    rcases h with ⟨-, rfl⟩ | ⟨late, -⟩
    · rw [compileAnswer_launches launches]
      rfl
    · exact absurd timely late
  have success (a : String) : s = .value (.outcome (.success a)) ↔ Launches found c ∧ ended ∧
    c.outcome.1 = .success a := by
    constructor
    · intro eq
      rcases h with ⟨timely, answer⟩ | ⟨-, m, failed⟩
      · have story : compileAnswer found c = .ok (.success a) := answerSignal_inj (answer.symm.trans eq)
        have launches := compileAnswer_success story
        exact ⟨launches, timely launches, Except.ok.inj ((compileAnswer_launches launches).symm.trans story)⟩
      · cases failed.symm.trans eq
    · rintro ⟨launches, timely, story⟩
      rw [comes launches timely, story]
  refine ⟨fun a => ?_, ?_, ?_, fun a eq => Child.outcome_solid ((success a).1 eq).2.2⟩
  · rw [success, Child.outcome_success_iff]
  · intro text launches timely clean solid plain first written
    exact (success text).2 ⟨launches, timely, Child.outcome_written solid plain first clean written⟩
  · intro launches timely failed
    obtain ⟨m, eq, printed⟩ := Child.outcome_failed failed
    exact ⟨m, by rw [comes launches timely, eq], printed⟩

end

namespace World

/-- Places of a compile that has started the process, above the frames of what asked for it, whether
the process has been killed or not. It comes back with `done` if not, and with `late` if so. -/
inductive Verdict (p : ProcessId) (done late : Outcome) (killed : Prop) : List Frame → Signal → Prop
  | done (spared : ¬ killed) : Verdict p done late killed [] (.value (.outcome done))
  | late (slain : killed) : Verdict p done late killed [] (.value (.outcome late))
  | cancelled : Verdict p done late killed [] .cancelled
  | begun (spared : ¬ killed) : Verdict p done late killed [.running p] (.start (.follow p))
  | running {s : Signal} (calm : s.IsCalm) (spared : ¬ killed) : Verdict p done late killed [.running p] s
  | following {s : Signal} (calm : s.IsCalm) (spared : ¬ killed) : Verdict p done late killed
      [.following p, .running p] s
  | limited {f : TaskId} {s : Signal} (calm : s.IsCalm) (spared : ¬ killed) : Verdict p done late killed
      [.limited p f] s
  | stopping {why : KillReason} {s : Signal} (calm : s.IsCalm) (spared : ¬ killed) :
      Verdict p done late killed [.stoppingFollower p why] s
  | reaping {why : KillReason} {s : Signal} (calm : s.IsCalm) (slain : killed) :
      Verdict p done late killed [.reaping p why] s

/-- The task is at such a place above the frames `base`. Its process may have been killed before now, `past`. -/
structure Bides (w : World) (t : TaskId) (p : ProcessId) (c : Child) (past : Prop) (base : List Frame) : Prop where
  child : w.processes[p]?.map (·.child) = some c
  place : ∃ pre s, Verdict p c.outcome.1 w.overdue (past ∨ w.Slain p) pre s ∧ (w.current = some (t, pre ++ base, s) ∨
    pre ≠ [] ∧ s.IsCalm ∧ ∃ wait, w.post? t = some ⟨pre ++ base, s, wait⟩)

/-- The process has been killed at some time in the course of the inputs. -/
def Kills (w : World) (p : ProcessId) (inputs : List Input) : Prop :=
  ∃ n ≤ inputs.length, (w.run (inputs.take n)).Slain p

/-- The process that begins in the next step has exited by the end of the inputs after it, and nobody has killed it. -/
def Exits (w : World) (mid : List Input) : Prop :=
  (w.tick.run mid).processes[w.processes.length]?.map (·.state) = some .exited ∧ ¬ w.tick.Kills w.processes.length mid

section
variable {ms : List Mark} {b : Bench} {w v : World} {t : TaskId} {p : ProcessId} {c : Child}
  {past killed killed' : Prop}
  {base pre : List Frame} {s s' : Signal} {done late : Outcome} {why : KillReason} {i : Input} {text : String}

theorem Verdict.mono (h : Verdict p done late killed pre s) (same : killed ↔ killed') :
    Verdict p done late killed' pre s :=
  propext same ▸ h

/-- What waits may be woken or cancelled. -/
theorem Verdict.calm (h : Verdict p done late killed pre s) (above : pre ≠ []) (calm : s.IsCalm) (calm' : s'.IsCalm) :
    Verdict p done late killed pre s' := by
  cases h with
  | done | late | cancelled => exact absurd rfl above
  | begun => exact calm.elim
  | running _ spared => exact .running calm' spared
  | following _ spared => exact .following calm' spared
  | limited _ spared => exact .limited calm' spared
  | stopping _ spared => exact .stopping calm' spared
  | reaping _ slain => exact .reaping calm' slain

/-! ### One step -/

theorem Bides.now (pre : List Frame) (child : w.processes[p]?.map (·.child) = some c)
    (verdict : Verdict p c.outcome.1 w.overdue (past ∨ w.Slain p) pre s) (now : w.current = some (t, pre ++ base, s)) :
    w.Bides t p c past base := ⟨child, pre, s, verdict, .inl now⟩

theorem bides_park (there : t < w.tasks.length) (child : w.processes[p]?.map (·.child) = some c) (above : pre ≠ [])
    (verdict : ∀ s : Signal, s.IsCalm → Verdict p c.outcome.1 w.overdue (past ∨ w.Slain p) pre s) (base : List Frame)
    (wait : Wait) : (w.park t (pre ++ base) wait).Bides t p c past base := by
  obtain ⟨s, wait', found, calm⟩ := land_post there (pre ++ base) wait
  refine ⟨by rwa [processes_park], pre, s, ?_, .inr ⟨above, calm, wait', found⟩⟩
  rw [overdue, Slain, setup_park, processes_park]
  exact verdict s calm

theorem bides_sleep (there : t < w.tasks.length) (child : w.processes[p]?.map (·.child) = some c) (above : pre ≠ [])
    (verdict : ∀ s : Signal, s.IsCalm → Verdict p c.outcome.1 w.overdue (past ∨ w.Slain p) pre s) (base : List Frame)
    (micros : Int) : (w.sleep t (pre ++ base) micros).Bides t p c past base := by
  unfold World.sleep
  split
  · exact ⟨(bides_park there child above verdict base .turn).child,
      (bides_park there child above verdict base .turn).place⟩
  · exact bides_park (w := w.setAlarm t micros.toNat) there child above verdict base .alarm

theorem bides_conclude {o : Outcome} (child : w.processes[p]?.map (·.child) = some c)
    (verdict : Verdict p c.outcome.1 w.overdue (past ∨ w.Slain p) [] (.value (.outcome o))) :
    (w.conclude t base o).Bides t p c past base := by
  cases o with
  | success | failed => exact .now [] child verdict rfl

theorem bides_readOutcome (child : w.processes[p]?.map (·.child) = some c) (spared : ¬ (past ∨ w.Slain p)) :
    (w.readOutcome t base p).Bides t p c past base := by
  obtain ⟨k, found, rfl⟩ := Option.map_eq_some_iff.1 child
  have noted := Alike.noteRun w k.child.outcome.2
  simp only [readOutcome, found]
  refine bides_conclude (noted.processes ▸ child) ?_
  rw [Slain, noted.processes]
  exact .done spared

theorem bides_reaped (child : w.processes[p]?.map (·.child) = some c) (slain : past ∨ w.Slain p) :
    (w.reaped t base why).Bides t p c past base := by
  cases why with
  | timedOut => exact bides_conclude (w := w.note (.timedOut w.setup.limit)) child (.late slain)
  | cancelled => exact .now [] child .cancelled rfl

theorem bides_kill (there : t < w.tasks.length) (child : w.processes[p]?.map (·.child) = some c) :
    (w.kill t base p why).Bides t p c past base := by
  obtain ⟨k, found, rfl⟩ := Option.map_eq_some_iff.1 child
  let x := (w.setProcess p .killed).emit (.killed w.clock p)
  have child' : x.processes[p]?.map (·.child) = some k.child := child_setProcess child .killed
  have slain : past ∨ x.Slain p := .inr (by simp [x, Slain, World.setProcess, World.emit, found])
  simp only [kill, found]
  split
  · exact bides_reaped (w := x) child' slain
  · split
    · exact bides_reaped (w := x.emit (.reaped w.clock p)) child' slain
    · exact bides_sleep (w := x) there child' (List.cons_ne_nil _ _) (fun s calm => .reaping calm slain) base _

theorem bides_stopFollower (there : t < w.tasks.length) (child : w.processes[p]?.map (·.child) = some c)
    (spared : ¬ (past ∨ w.Slain p)) (f : TaskId) : (w.stopFollower t base p f why).Bides t p c past base := by
  let x := w.modifyTask f fun k => { k with watchers := [.report t f] }
  have stopped : Nudges anyone x (x.cancel f) := cancel_nudges x f
  have there' : t < (x.cancel f).tasks.length := Nat.lt_of_lt_of_eq there (length_stopped w t f).symm
  have stopping : ∀ s : Signal, s.IsCalm → Verdict p c.outcome.1 (x.cancel f).overdue (past ∨ (x.cancel f).Slain p)
      [.stoppingFollower p why] s := by
    intro s calm
    rw [overdue, Slain, stopped.setup, stopped.processes]
    exact .stopping calm spared
  exact bides_park (w := x.cancel f) there' (stopped.processes ▸ child) (List.cons_ne_nil _ _) stopping base (.follower f)

theorem bides_limitedWaitOver (there : t < w.tasks.length) (child : w.processes[p]?.map (·.child) = some c)
    (spared : ¬ (past ∨ w.Slain p)) (f : TaskId) : (w.limitedWaitOver t base p f why).Bides t p c past base := by
  unfold limitedWaitOver
  split
  · split
    · exact bides_kill there child
    · split
      · exact .now [] child .cancelled rfl
      · exact bides_readOutcome child spared
  · exact bides_stopFollower there child spared f

theorem bides_processExited (child : w.processes[p]?.map (·.child) = some c) (spared : ¬ (past ∨ w.Slain p)) :
    (w.processExited t (.running p :: base) p).Bides t p c past base := by
  obtain ⟨k, found, -⟩ := Option.map_eq_some_iff.1 child
  have exited : ¬ (w.setProcess p .exited).Slain p := by simp [Slain, World.setProcess, found]
  simp only [processExited, found]
  exact .now (s := .value .unit) [.running p] (child_setProcess child .exited)
    (.running trivial (not_or.2 ⟨(not_or.1 spared).1, exited⟩)) rfl

theorem bides_beginFollow (there : t < w.tasks.length) (child : w.processes[p]?.map (·.child) = some c)
    (spared : ¬ (past ∨ w.Slain p)) : (w.beginFollow t (.running p :: base) p).Bides t p c past base := by
  obtain ⟨k, found, -⟩ := Option.map_eq_some_iff.1 child
  simp only [beginFollow, found]
  split
  · exact bides_processExited child spared
  · exact bides_sleep there child (List.cons_ne_nil _ _) (fun s calm => .following calm spared) base _

/-- One step of a task that waits for the process. -/
theorem Verdict.move (h : Verdict p c.outcome.1 w.overdue (past ∨ w.Slain p) pre s) (there : t < w.tasks.length)
    (child : w.processes[p]?.map (·.child) = some c) (above : pre ≠ []) :
    (w.move t (pre ++ base) s).Bides t p c (past ∨ w.Slain p) base := by
  have still {x : World} (spared : ¬ (past ∨ w.Slain p)) (same : x.Slain p ↔ w.Slain p) :
      ¬ ((past ∨ w.Slain p) ∨ x.Slain p) := by simpa [same, or_assoc] using spared
  cases h with
  | done | late | cancelled => exact absurd rfl above
  | begun spared => exact bides_beginFollow there child (still spared .rfl)
  | running calm spared =>
    cases s with
    | start | fault => exact calm.elim
    | value => exact bides_readOutcome child (still spared .rfl)
    | cancelled => exact bides_kill there child
  | following calm spared =>
    cases s with
    | start | fault => exact calm.elim
    | value => exact bides_processExited child (still spared .rfl)
    | cancelled => exact .now (s := .cancelled) [.running p] child (.running trivial (still spared .rfl)) rfl
  | limited calm spared =>
    cases s with
    | start | fault => exact calm.elim
    | value => exact bides_limitedWaitOver there child (still spared .rfl) _
    | cancelled => exact bides_limitedWaitOver there child (still spared .rfl) _
  | stopping calm spared =>
    cases s with
    | start | fault => exact calm.elim
    | value => exact bides_kill there child
    | cancelled => exact bides_kill there child
  | reaping calm slain =>
    cases s with
    | start | fault => exact calm.elim
    | value => exact bides_reaped (w := w.emit _) child (.inl slain)
    | cancelled => exact .now [] child .cancelled rfl

/-! ### How a compile begins -/

theorem bides_awaitProcess (there : t < w.tasks.length) (child : w.processes[p]?.map (·.child) = some c)
    (spared : ¬ (past ∨ w.Slain p)) : (w.awaitProcess t base p).Bides t p c past base := by
  unfold awaitProcess
  dsimp only
  split
  · exact .now [.running p] child (.begun spared) rfl
  · let x := (w.spawn (.follow p) fun f => [.report t f]).2
    have there' : t < x.tasks.length := lt_length_spawn there _ _
    split
    · exact bides_stopFollower (w := x) there' child spared _
    · exact bides_park (w := x.setAlarm t w.setup.limit.millionths.toNat) there' child (List.cons_ne_nil _ _)
        (fun s calm => .limited calm spared) base _

/-- A compile that finds a compiler and can start it starts it on the text. -/
theorem bides_beginCompile {exe : String} (there : t < w.tasks.length) (found : w.finder.answer = .ok (some exe))
    (starts : w.Starts text) :
    (w.beginCompile t base text).Bides t w.processes.length (w.setup.child text) False base := by
  have noted := Alike.noteAll w w.finder.notes
  unfold beginCompile
  dsimp only
  rw [finder_noteAll, found]
  unfold invoke
  dsimp only
  rw [show ((w.noteAll w.finder.notes).count "compile.started").setup = w.setup from noted.setup, starts.1, starts.2,
    show ((w.noteAll w.finder.notes).count "compile.started").processes = w.processes from noted.processes]
  refine bides_awaitProcess (noted.tasks ▸ there) ?_ ?_
  · simp [World.emit]
  · simp [Slain, World.emit]

/-- A compile that starts no process is back at once. -/
theorem beginCompile_idle (idle : ¬ Launches w.finder.answer (w.setup.child text)) :
    (w.beginCompile t base text).current =
      some (t, base, answerSignal (compileAnswer w.finder.answer (w.setup.child text))) := by
  unfold beginCompile
  dsimp only
  rw [finder_noteAll]
  rcases found : w.finder.answer with f | _ | exe
  · rfl
  · rfl
  · have setup : ((w.noteAll w.finder.notes).count "compile.started").setup = w.setup :=
      (Alike.noteAll w w.finder.notes).setup
    unfold invoke
    dsimp only
    rw [setup]
    rcases written : (w.setup.child text).writeFault with _ | m | ⟨name, m⟩
    · rcases started : (w.setup.child text).startFault with _ | m | ⟨name, m⟩
      · exact absurd ⟨⟨exe, found⟩, written, started⟩ idle
      · simp only [compileAnswer, written, started]
        rfl
      · simp only [compileAnswer, written, started]
        rfl
    · simp only [compileAnswer, written]
      rfl
    · simp only [compileAnswer, written]
      rfl

/-! ### The course of a compile -/

/-- Whatever happens, a task that waits for a process goes on with it, until the compile is back. -/
theorem Flight.apply_bides (h : Flight ms b w) (tended : w.Tended) (own : ∃ k, w.processes[p]? = some k ∧ k.owner = t)
    (bides : w.Bides t p c past base) (allowed : i.IsPublic) (above : base.length < (w.stackOf t).length) :
    (w.apply i).Bides t p c (past ∨ w.Slain p) base := by
  obtain ⟨child, pre, s, verdict, place⟩ := bides
  by_cases steps : w.Steps i t
  · obtain ⟨rfl, fs, s', running⟩ := steps
    obtain ⟨rfl, rfl⟩ := h.at_place place running
    have higher : pre ≠ [] := by
      rintro rfl
      rw [stackOf_running running] at above
      exact Nat.lt_irrefl _ above
    rw [show w.apply .tick = w.move t (pre ++ base) s from tick_running running]
    exact verdict.move (h.there running) child higher
  · have slain : past ∨ w.Slain p ↔ (past ∨ w.Slain p) ∨ (w.apply i).Slain p :=
      ⟨.inl, fun killed => killed.elim id fun slain => .inr (h.slain_before tended own steps slain)⟩
    have limit : (w.apply i).overdue = w.overdue := by rw [overdue, (h.sane.apply_fixed i).limit, overdue]
    have next : Verdict p c.outcome.1 (w.apply i).overdue ((past ∨ w.Slain p) ∨ (w.apply i).Slain p) pre s :=
      limit ▸ verdict.mono slain
    have child' : (w.apply i).processes[p]?.map (·.child) = some c := by
      obtain ⟨k, found, rfl⟩ := Option.map_eq_some_iff.1 child
      obtain ⟨k', found', same⟩ := (h.apply_bred i).1.old found
      simp [found', same]
    rcases place with now | ⟨higher, calm, wait, found⟩
    · have still : i ≠ .tick := fun tick => steps ⟨tick, _, _, now⟩
      exact .now pre child' next (current_apply now still)
    · obtain ⟨s', wait', calm', found'⟩ := h.apply_calm allowed found calm steps
      exact ⟨child', pre, s', next.calm higher calm calm', .inr ⟨higher, calm', wait', found'⟩⟩

theorem Flight.run_bides {mid : List Input} (h : Flight ms b w) (tended : w.Tended)
    (own : ∃ k, w.processes[p]? = some k ∧ k.owner = t) (bides : w.Bides t p c past base)
    (allowed : ∀ i ∈ mid, i.IsPublic)
    (above : ∀ n < mid.length, base.length < ((w.run (mid.take n)).stackOf t).length) :
    (w.run mid).Bides t p c (past ∨ ∃ n < mid.length, (w.run (mid.take n)).Slain p) base := by
  induction mid generalizing ms w past with
  | nil => simpa [World.run] using bides
  | cons i rest ih =>
    have given : i.IsPublic := allowed i List.mem_cons_self
    have goesOn := ih (h.apply given) (h.apply_tended tended given) ((h.apply_bred i).1.owned own)
      (h.apply_bides tended own bides given (above 0 (Nat.succ_pos _)))
      (fun j mem => allowed j (List.mem_cons_of_mem i mem))
      fun n lt => above (n + 1) (Nat.succ_lt_succ lt)
    have whole : (past ∨ w.Slain p) ∨ (∃ n < rest.length, ((w.apply i).run (rest.take n)).Slain p) ↔
        past ∨ ∃ n < (i :: rest).length, (w.run ((i :: rest).take n)).Slain p := by
      rw [or_assoc]
      refine or_congr_right ⟨?_, ?_⟩
      · rintro (now | ⟨n, lt, later⟩)
        · exact ⟨0, Nat.succ_pos _, now⟩
        · exact ⟨n + 1, Nat.succ_lt_succ lt, later⟩
      · rintro ⟨_ | n, lt, slain⟩
        · exact .inl slain
        · exact .inr ⟨n, Nat.lt_of_succ_lt_succ lt, slain⟩
    exact propext whole ▸ goesOn

/-- A task that is back from waiting for a process, and was not cancelled, has what the process comes to unless it was
killed. -/
theorem Bides.back (h : w.Bides t p c past base) (flight : Flight ms b w) (now : w.current = some (t, base, s)) :
    s = .cancelled ∨ ¬ (past ∨ w.Slain p) ∧ s = .value (.outcome c.outcome.1) ∨
      (past ∨ w.Slain p) ∧ s = .value (.outcome w.overdue) := by
  obtain ⟨-, pre, s', verdict, place⟩ := h
  obtain ⟨frames, rfl⟩ := flight.at_place place now
  obtain rfl : pre = [] := by simpa using frames
  cases verdict with
  | done spared => exact .inr (.inl ⟨spared, rfl⟩)
  | late slain => exact .inr (.inr ⟨slain, rfl⟩)
  | cancelled => exact .inl rfl

theorem kills_iff {mid : List Input} :
    w.Kills p mid ↔ (∃ n < mid.length, (w.run (mid.take n)).Slain p) ∨ (w.run mid).Slain p := by
  constructor
  · rintro ⟨n, le, slain⟩
    rcases Nat.lt_or_eq_of_le le with lt | rfl
    · exact .inl ⟨n, lt, slain⟩
    · exact .inr (by rwa [List.take_length] at slain)
  · rintro (⟨n, lt, slain⟩ | slain)
    · exact ⟨n, Nat.le_of_lt lt, slain⟩
    · exact ⟨mid.length, Nat.le_refl _, by rwa [List.take_length]⟩

/-- A compile that has started a process and comes back uncancelled has what the process comes to,
if that has exited and was not killed meanwhile, and the time is up otherwise. -/
theorem Flight.launched_back {mid : List Input} (h : Flight ms b w) (tended : w.Tended)
    (begun : w.current = some (t, base, .start (.compile text)))
    (launches : Launches w.finder.answer (w.setup.child text))
    (allowed : ∀ i ∈ mid, i.IsPublic) (returns : w.tick.ComesBack t base mid s) (uncancelled : s ≠ .cancelled) :
    w.Exits mid ∧ s = .value (.outcome (w.setup.child text).outcome.1) ∨
      ¬ w.Exits mid ∧ ∃ m, s = .value (.outcome (.failed .processError m)) := by
  obtain ⟨⟨exe, found⟩, written, started⟩ := launches
  have next : Flight _ _ w.tick := h.apply (i := .tick) trivial
  have bides : w.tick.Bides t w.processes.length (w.setup.child text) False base := by
    rw [show w.tick = w.beginCompile t base text from tick_running begun]
    exact bides_beginCompile (h.there begun) found ⟨written, started⟩
  have more : w.processes.length < w.tick.processes.length := by
    obtain ⟨k, at_p, -⟩ := Option.map_eq_some_iff.1 bides.child
    exact (List.getElem?_eq_some_iff.1 at_p).1
  have own := tick_owned begun more
  have back := next.run_bides (h.apply_tended (i := .tick) tended trivial) own bides allowed returns.1
  have verdict := back.back (next.run allowed) returns.2
  simp only [false_or, ← kills_iff] at verdict
  rcases verdict.resolve_left uncancelled with ⟨spared, eq⟩ | ⟨killed, eq⟩
  · refine .inl ⟨⟨?_, spared⟩, eq⟩
    obtain ⟨k, at_p, owner⟩ := next.run_owned allowed own
    have dead : k.state ≠ .alive := fun alive => h.back_owns begun more allowed returns.2 ⟨k, at_p, owner, alive⟩
    have whole : k.state ≠ .killed := fun slain => spared (kills_iff.2 (.inr (by simp [Slain, at_p, slain])))
    rw [at_p, Option.map_some]
    cases state : k.state with
    | alive => exact absurd state dead
    | exited => rfl
    | killed => exact absurd state whole
  · exact .inr ⟨fun exits => exits.2 killed, _, eq⟩

/-- Whatever else goes on, a compile that comes back uncancelled keeps to its contract, and its
process has ended in time where it has exited and nobody has killed it since it began. A compile
that has an editor to itself comes back, and its process has ended in time where it takes less than
the limit. -/
theorem compile_contract {start : World} (new : start.IsNew) {before mid : List Input}
    (allowed : ∀ i, i ∈ before ∨ i ∈ mid → i.IsPublic)
    (begun : (start.run before).current = some (t, base, .start (.compile text)))
    (returns : (start.run before).tick.ComesBack t base mid s) (uncancelled : s ≠ .cancelled) :
    Contract (start.run before).finder.answer ((start.run before).setup.child text) ((start.run before).Exits mid) s ∧
    ∀ setup finder gallery text' fuel, 20 ≤ fuel →
      ∃ r, ((World.start setup finder gallery []).finishOp fuel (.compile text')).1 = some r ∧
        Contract finder.answer (setup.child text') ((setup.child text').IsTimely setup.limit) r.signal := by
  constructor
  · have given : ∀ i ∈ mid, i.IsPublic := fun i mem => allowed i (.inr mem)
    have earlier : ∀ i ∈ before, i.IsPublic := fun i mem => allowed i (.inl mem)
    have flight := run_flight new earlier
    by_cases launches : Launches (start.run before).finder.answer ((start.run before).setup.child text)
    · rcases flight.launched_back (run_tended new earlier) begun launches given returns uncancelled with ⟨exits, eq⟩ | late
      · exact .of_answer (.inl ⟨fun _ => exits, by rw [eq, compileAnswer_launches launches]; rfl⟩)
      · exact .of_answer (.inr late)
    · have back : (start.run before).tick.current = some (t, base, answerSignal (compileAnswer
          (start.run before).finder.answer ((start.run before).setup.child text))) := by
        rw [show (start.run before).tick = (start.run before).beginCompile t base text from tick_running begun]
        exact beginCompile_idle launches
      obtain ⟨-, rfl⟩ := returns.at_once back
      exact .of_answer (.inl ⟨fun launches' => absurd launches' launches, rfl⟩)
  · intro setup finder gallery text fuel enough
    obtain ⟨r, o, comes, eq, affords⟩ := finishOp_compile setup finder gallery text enough
    refine ⟨r, comes, eq ▸ .of_answer ?_⟩
    cases affords with
    | answered timely => exact .inl ⟨fun ⟨found, written, started⟩ => timely found written started, rfl⟩
    | timedOut _ _ _ late => exact .inr ⟨late, _, rfl⟩

end

/-- An editor whose compiler takes a thousandth of a second, has a limit, and marks its output. -/
def markSample : World :=
  start ⟨0, .whole 5, false, fun _ => ⟨none, none, 1000, 0, [], .bytes (Utf8.mark ++ [123, 125]), false, none⟩⟩
    ⟨.ok (some "ink"), []⟩ (.new "") []

theorem isNew_markSample : markSample.IsNew := isNew_start _ _ _ nofun

/-- From its beginning on, the compile waits for its process, which ends before the limit. -/
def timely : List Input := .tick :: .tick :: .jump :: List.replicate 6 .tick

/-- What the running task comes back with, if that is what a compile comes to. -/
def answered? (w : World) : Option (TaskId × Outcome) :=
  match w.current with
  | some (t, [], .value (.outcome o)) => some (t, o)
  | _ => none

theorem answered?_current {w : World} {t : TaskId} {o : Outcome} (h : w.answered? = some (t, o)) :
    w.current = some (t, [], .value (.outcome o)) := by
  unfold answered? at h
  split at h
  · rename_i running
    cases h
    exact running
  · cases h

theorem timely_returns : (markSample.run [.begin (.compile "x")]).tick.ComesBack 0 [] timely
    (.value (.outcome (.success "\x7b\x7d"))) :=
  ⟨by decide +kernel, answered?_current (by decide +kernel)⟩

/-- The process of the compile that comes back with a story has exited. -/
theorem timely_exits : (markSample.run [.begin (.compile "x")]).Exits timely := by
  have allowed : ∀ i, i ∈ [Input.begin (.compile "x")] ∨ i ∈ timely → i.IsPublic := by
    simp [timely, or_imp, forall_and, Input.IsPublic, Op.IsPublic.compile]
  exact ((compile_contract isNew_markSample allowed rfl timely_returns (by simp)).1.success _ |>.1 rfl).2.1
end World
end InkPreview.Live
