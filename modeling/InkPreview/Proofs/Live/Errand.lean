import InkPreview.Proofs.Live.Seclusion
/-!
A compile in an editor where nothing else goes on, alone or for an export, as the export command
runs it. Whatever the compiler does, the compile ends within a few steps, with what the compiler
makes of the text if it has its time, and with the time up otherwise. Main statements:
`finishOp_compile`, `finishOp_exportAs`.
-/
namespace InkPreview

/-- The process ends before a time limit that is set as it is started. At the very moment of its end
the limit comes first, except for a process that takes no time. -/
def Child.IsTimely (c : Child) (limit : Decimal.Number) : Prop :=
  limit.isZero = true ∨ limit.isNegative = false ∧ (c.runTime = 0 ∨ c.runTime < limit.millionths.toNat)

namespace Live
namespace World

/-- What goes on beside the settings, in an editor without documents, clients and subscribers. -/
structure Scene where
  tasks : List Task
  queue : List Job
  alarms : List Alarm
  current : Option (TaskId × List Frame × Signal)
  clock : Nat
  processes : List Process
  history : List Event
  metrics : Metrics

def stage (w : World) (s : Scene) : World :=
  { w with
    tasks := s.tasks, queue := s.queue, alarms := s.alarms, current := s.current, clock := s.clock
    processes := s.processes, history := s.history, metrics := s.metrics }

/-- Within so many steps the first task ends with one of the results `S`. -/
def Lands (v : World) (S : Result → Prop) (n : Nat) : Prop :=
  ∃ r, S r ∧ ∀ more, (finishTask (n + more) 0 v).resultOf 0 = some r

/-- The first task, which has a compile done, while it runs. -/
def caller (frames : List Frame) (s : Signal) : Task := ⟨frames, s, .running, false, [], none⟩

/-- From what a compile comes to, one of `T`, the frames `base` get to one of the results `S` within so many steps. -/
def Finishes (w : World) (base : List Frame) (T : Except Fault Outcome → Prop) (S : Result → Prop) (m : Nat) : Prop :=
  ∀ o, T o → ∀ fs s others q al clock ps hist ms,
    Lands (w.stage ⟨caller fs s :: others, q, al, some (0, base, answerSignal o), clock, ps, hist, ms⟩) S m

section
variable {w v : World} {base : List Frame} {T : Except Fault Outcome → Prop} {S : Result → Prop} {n m : Nat}
  {kind : ExportKind} {title : Option String} {doc : String} {k : Task} {others : List Task} {q : List Job}
  {al : List Alarm}
  {clock : Nat} {ps : List Process} {hist : List Event} {ms : Metrics} {fs : List Frame} {s : Signal}

theorem Lands.tick (unended : v.resultOf 0 = none) (busy : v.isQuiescent = false) (h : Lands v.tick S n) :
    Lands v S (n + 1) := by
  obtain ⟨r, comes, ends⟩ := h
  refine ⟨r, comes, fun more => ?_⟩
  rw [Nat.add_right_comm, finishTask, unended, busy]
  exact ends more

theorem Lands.jump (unended : v.resultOf 0 = none) (quiet : v.isQuiescent = true) (waits : v.alarms.isEmpty = false)
    (h : Lands v.jump S n) : Lands v S (n + 1) := by
  obtain ⟨r, comes, ends⟩ := h
  refine ⟨r, comes, fun more => ?_⟩
  rw [Nat.add_right_comm, finishTask, unended, quiet, waits]
  exact ends more

theorem Lands.ended {r : Result} (comes : S r) (ended : v.resultOf 0 = some r) : Lands v S 0 := by
  refine ⟨r, comes, fun more => ?_⟩
  rw [Nat.zero_add]
  cases more with
  | zero => exact ended
  | succ more =>
    rw [finishTask, ended]
    exact ended

theorem Lands.mono {n' : Nat} (h : Lands v S n) (le : n ≤ n') : Lands v S n' := by
  obtain ⟨r, comes, ends⟩ := h
  refine ⟨r, comes, fun more => ?_⟩
  obtain ⟨d, rfl⟩ := Nat.exists_eq_add_of_le le
  rw [Nat.add_assoc]
  exact ends (d + more)

theorem lands_conclude {o : Outcome} {cur : Option (TaskId × List Frame × Signal)} (back : w.Finishes base T S m)
    (comes : T (.ok o)) :
    Lands ((w.stage ⟨caller fs s :: others, q, al, cur, clock, ps, hist, ms⟩).conclude 0 base o) S m := by
  cases o with
  | success story => exact back _ comes _ _ _ _ _ _ _ _ _
  | failed f m => exact back _ comes _ _ _ _ _ _ _ _ _

theorem lands_readOutcome {c : Child} {source : String} {state : ProcessState}
    {cur : Option (TaskId × List Frame × Signal)} (back : w.Finishes base T S m) (comes : T (.ok c.outcome.1)) :
    Lands ((w.stage ⟨caller fs s :: others, q, al, cur, clock, [⟨c, source, 0, state⟩], hist, ms⟩).readOutcome 0 base 0)
      S m := by
  show Lands (((w.stage _).noteRun c.outcome.2).conclude 0 _ c.outcome.1) S m
  rcases c.outcome.2 with _ | _ | _ | _ <;> exact lands_conclude back comes

/-! ### Waiting for time to pass -/

section
variable {a b : Task} {cur : Option (TaskId × List Frame × Signal)}

theorem jump_single {due : Nat} : (w.stage ⟨a :: others, q, [⟨due, 0⟩], cur, clock, ps, hist, ms⟩).jump =
    w.stage ⟨{ a with wait := .turn, signal := .value .unit } :: others, q ++ [.resume 0], [], cur, max clock due, ps,
      hist, ms⟩ := by
  simp [World.jump, nextAlarm?, stage, ring, wake, modifyTask, enqueue]

/-- Two alarms, of which the first is earlier. -/
theorem jump_first (earlier : n < m) :
    (w.stage ⟨[a, b], q, [⟨clock + n, 0⟩, ⟨clock + m, 1⟩], cur, clock, ps, hist, ms⟩).jump =
      w.stage ⟨[{ a with wait := .turn, signal := .value .unit }, b], q ++ [.resume 0],
        [⟨clock + m, 1⟩], cur, clock + n,
        ps, hist, ms⟩ := by
  have ahead : ¬ clock + m ≤ clock + n := by omega
  simp [World.jump, nextAlarm?, stage, ring, wake, modifyTask, enqueue, Nat.le_of_lt earlier, ahead]

theorem jump_second (earlier : m < n) :
    (w.stage ⟨[a, b], q, [⟨clock + n, 0⟩, ⟨clock + m, 1⟩], cur, clock, ps, hist, ms⟩).jump =
      w.stage ⟨[a, { b with wait := .turn, signal := .value .unit }], q ++ [.resume 1],
        [⟨clock + n, 0⟩], cur, clock + m,
        ps, hist, ms⟩ := by
  have ahead : ¬ clock + n ≤ clock + m := by omega
  simp [World.jump, nextAlarm?, stage, ring, wake, modifyTask, enqueue, Nat.le_of_lt earlier, ahead]
  rfl

theorem jump_together :
    (w.stage ⟨[a, b], q, [⟨clock + n, 0⟩, ⟨clock + n, 1⟩], cur, clock, ps, hist, ms⟩).jump =
      w.stage ⟨[{ a with wait := .turn, signal := .value .unit }, { b with wait := .turn, signal := .value .unit }],
        q ++ [.resume 0, .resume 1], [], cur, clock + n, ps, hist, ms⟩ := by
  simp [World.jump, nextAlarm?, stage, ring, wake, modifyTask, enqueue]

end

theorem lands_sleep {frames : List Frame} {micros : Int} {cur : Option (TaskId × List Frame × Signal)}
    (h : ∀ clock, Lands (w.stage ⟨caller frames (.value .unit) :: others, [], [],
      some (0, frames, .value .unit), clock, ps, hist, ms⟩) S n) :
    Lands ((w.stage ⟨caller fs s :: others, [], [], cur, clock, ps, hist, ms⟩).sleep 0 frames micros) S (n + 2) := by
  unfold World.sleep
  split
  · exact Lands.mono (n := n + 1) (.tick rfl rfl (h clock)) (Nat.le_succ _)
  · refine .jump rfl rfl rfl ?_
    show Lands (World.jump (w.stage ⟨⟨frames, .value .unit, .alarm, false, [], none⟩ :: others, [],
      [⟨clock + micros.toNat, 0⟩], none, clock, ps, hist, ms⟩)) S (n + 1)
    rw [jump_single]
    exact .tick rfl rfl (h _)

/-! ### The end of a process -/

theorem lands_reaped {cur : Option (TaskId × List Frame × Signal)} (back : w.Finishes base T S m)
    (late : T (.ok (.failed .processError (timedOutMessage w.setup.limit)))) :
    Lands ((w.stage ⟨caller fs s :: others, q, al, cur, clock, ps, hist, ms⟩).reaped 0 base .timedOut) S m :=
  lands_conclude back late

theorem lands_kill {c : Child} {source : String} {state : ProcessState} {cur : Option (TaskId × List Frame × Signal)}
    (back : w.Finishes base T S m) (late : T (.ok (.failed .processError (timedOutMessage w.setup.limit)))) :
    Lands ((w.stage ⟨caller fs s :: others, [], [], cur, clock, [⟨c, source, 0, state⟩], hist, ms⟩).kill 0 base 0
      .timedOut) S (m + 3) := by
  unfold World.kill
  dsimp only [World.stage, List.getElem?_cons_zero]
  split
  · exact (lands_reaped back late).mono (by omega)
  · split
    · exact (lands_reaped back late).mono (by omega)
    · exact lands_sleep fun clock => .tick rfl rfl (lands_reaped back late)

/-- A process that nobody keeps to a limit. -/
theorem lands_follow {c : Child} {source : String} (back : w.Finishes base T S m) (comes : T (.ok c.outcome.1)) :
    Lands (w.stage ⟨caller fs s :: others, [], [], some (0, .running 0 :: base, .start (.follow 0)), clock,
      [⟨c, source, 0, .alive⟩], hist, ms⟩) S (m + 5) := by
  refine .tick rfl rfl ?_
  show Lands (if c.runTime = 0 then _ else _) S (m + 4)
  split
  · exact Lands.mono (n := m + 1) (.tick rfl rfl (lands_readOutcome back comes)) (by omega)
  · exact lands_sleep fun clock => .tick rfl rfl (.tick rfl rfl (lands_readOutcome back comes))

/-! ### A process under a limit -/

/-- The task that follows the process, and the task it reports to. -/
def follower (frames : List Frame) (s : Signal) (wait : Wait) (mustCancel : Bool) : Task :=
  ⟨frames, s, wait, mustCancel, [.report 0 1], none⟩

/-- The caller waits for its follower with the signal for it to go on. -/
def awaiting (frames : List Frame) : Task := ⟨frames, .value .unit, .follower 1, false, [], none⟩

section
variable {frames : List Frame} {s' : Signal} {cur : Option (TaskId × List Frame × Signal)}

theorem cancel_alarmed : (w.stage ⟨[k, follower frames s' .alarm false], q, al, cur, clock, ps, hist, ms⟩).cancel 1 =
    w.stage ⟨[k, follower frames .cancelled .turn false], q ++ [.resume 1],
      al.filter (·.task != 1), cur, clock, ps, hist,
      ms⟩ := by
  simp [cancel, cancelling, cancelWith, stage, follower, detach, wake, modifyTask, enqueue]

theorem cancel_due : (w.stage ⟨[k, follower frames s' .turn false], q, al, cur, clock, ps, hist, ms⟩).cancel 1 =
    w.stage ⟨[k, follower frames s' .turn true], q, al, cur, clock, ps, hist, ms⟩ := by
  simp [cancel, cancelling, cancelWith, stage, follower, setCancel, modifyTask]

theorem park_caller {k : Task} {frames : List Frame} :
    (w.stage ⟨[caller fs s, k], q, al, cur, clock, ps, hist, ms⟩).park 0 frames (.follower 1) =
      w.stage ⟨[awaiting frames, k], q, al, none, clock, ps, hist, ms⟩ := rfl

end

/-- The caller learns that its follower has ended. -/
theorem lands_learn {frames : List Frame} {k : Task}
    (h : Lands (w.stage ⟨[caller frames (.value .unit), k], [], [], some (0, frames, .value .unit), clock, ps, hist,
      ms⟩) S n) (idle : al.filter (·.task != 0) = []) :
    Lands (w.stage ⟨[awaiting frames, k], [.report 0 1], al, none, clock, ps, hist, ms⟩) S (n + 2) := by
  refine .tick rfl rfl ?_
  have told : (w.stage ⟨[awaiting frames, k], [.report 0 1], al, none, clock, ps, hist, ms⟩).tick =
      w.stage ⟨[⟨frames, .value .unit, .turn, false, [], none⟩, k], [.resume 0],
        al.filter (·.task != 0), none, clock, ps,
        hist, ms⟩ := rfl
  rw [told, idle]
  exact .tick rfl rfl h

/-- The follower was cancelled, and the process is killed once it has ended. -/
theorem lands_stopping {c : Child} {source : String} {state : ProcessState} {frames : List Frame} {s : Signal}
    {mustCancel : Bool} (back : w.Finishes base T S m)
    (late : T (.ok (.failed .processError (timedOutMessage w.setup.limit))))
    (lone : frames = [] ∨ frames = [.following 0]) (cancelled : mustCancel = true ∨ s = .cancelled) :
    Lands (w.stage ⟨[awaiting (.stoppingFollower 0 .timedOut :: base),
      follower frames s .turn mustCancel], [.resume 1], [], none, clock, [⟨c, source, 0, state⟩], hist, ms⟩) S (m + 10) := by
  have turn : (w.stage ⟨[awaiting (.stoppingFollower 0 .timedOut :: base),
      follower frames s .turn mustCancel], [.resume 1], [], none, clock, [⟨c, source, 0, state⟩], hist, ms⟩).tick =
      w.stage ⟨[awaiting (.stoppingFollower 0 .timedOut :: base), follower frames s .running false],
        [], [], some (1, frames, .cancelled), clock, [⟨c, source, 0, state⟩], hist, ms⟩ := by
    rcases cancelled with rfl | rfl
    · rfl
    · cases mustCancel <;> rfl
  refine .tick rfl rfl ?_
  rw [turn]
  rcases lone with rfl | rfl
  · refine (Lands.tick rfl rfl ?_).mono (show m + 7 ≤ m + 9 by omega)
    exact lands_learn (.tick rfl rfl (lands_kill back late)) rfl
  · refine (Lands.tick rfl rfl (.tick rfl rfl ?_)).mono (show m + 8 ≤ m + 9 by omega)
    exact lands_learn (.tick rfl rfl (lands_kill back late)) rfl

/-- The follower sees the process end before the time is up. -/
theorem lands_seen {c : Child} {source : String} {state : ProcessState} {fs : List Frame} {s : Signal}
    (back : w.Finishes base T S m) (comes : T (.ok c.outcome.1)) (idle : al.filter (·.task != 0) = []) :
    Lands ((w.stage ⟨[awaiting (.limited 0 1 :: base), follower fs s .running false], [], al,
      some (1, [], .value .unit), clock, [⟨c, source, 0, state⟩], hist, ms⟩)) S (m + 4) := by
  refine .tick rfl rfl (lands_learn (.tick rfl rfl ?_) idle)
  show Lands (if (w.setup.heedsLate && false) = true then _ else _) S m
  rw [Bool.and_false]
  exact lands_readOutcome back comes

/-- Both wait, the caller for its time to be up and the follower for the process to end. -/
theorem lands_waiting {c : Child} {source : String} {limit : Nat} (back : w.Finishes base T S m)
    (comes : c.runTime < limit → T (.ok c.outcome.1))
    (late : limit ≤ c.runTime → T (.ok (.failed .processError (timedOutMessage w.setup.limit)))) :
    Lands (w.stage ⟨[awaiting (.limited 0 1 :: base),
      follower [.following 0] (.value .unit) .alarm false], [], [⟨clock + limit, 0⟩, ⟨clock + c.runTime, 1⟩], none, clock,
      [⟨c, source, 0, .alive⟩], hist, ms⟩) S (m + 13) := by
  refine .jump rfl rfl rfl ?_
  rcases Nat.lt_trichotomy limit c.runTime with first | same | second
  · rw [jump_first first]
    refine .tick rfl rfl (.tick rfl rfl ?_)
    show Lands (World.park (World.cancel (w.stage ⟨[caller (.limited 0 1 :: base) (.value .unit),
      follower [.following 0] (.value .unit) .alarm false], [], [⟨clock + c.runTime, 1⟩], _, _, _, _, _⟩) 1) 0 _
      (.follower 1)) S (m + 10)
    rw [cancel_alarmed, park_caller]
    exact lands_stopping back (late (Nat.le_of_lt first)) (.inr rfl) (.inr rfl)
  · rw [← same, jump_together]
    refine .tick rfl rfl (.tick rfl rfl ?_)
    show Lands (World.park (World.cancel (w.stage ⟨[caller (.limited 0 1 :: base) (.value .unit),
      follower [.following 0] (.value .unit) .turn false], [.resume 1], [], _, _, _, _, _⟩) 1) 0 _
      (.follower 1)) S (m + 10)
    rw [cancel_due, park_caller]
    exact lands_stopping back (late (Nat.le_of_eq same)) (.inr rfl) (.inl rfl)
  · rw [jump_second second]
    exact .tick rfl rfl (.tick rfl rfl ((lands_seen back (comes second) rfl).mono (by omega)))

theorem lands_limited {c : Child} {source : String} {limit : Nat} (back : w.Finishes base T S m)
    (comes : c.runTime = 0 ∨ c.runTime < limit → T (.ok c.outcome.1))
    (late : c.runTime ≠ 0 → limit ≤ c.runTime → T (.ok (.failed .processError (timedOutMessage w.setup.limit)))) :
    Lands (w.stage ⟨[awaiting (.limited 0 1 :: base), follower [] (.start (.follow 0)) .turn false],
      [.resume 1], [⟨clock + limit, 0⟩], none, clock, [⟨c, source, 0, .alive⟩], hist, ms⟩) S (m + 15) := by
  refine .tick rfl rfl (.tick rfl rfl ?_)
  show Lands (if c.runTime = 0 then _ else World.sleep _ 1 [.following 0] c.runTime) S (m + 13)
  split
  · rename_i atOnce
    exact (lands_seen back (comes (.inl atOnce)) rfl).mono (by omega)
  · rename_i lasts
    have time : ¬ (c.runTime : Int) ≤ 0 := by omega
    unfold World.sleep
    rw [if_neg time]
    exact lands_waiting back (fun early => comes (.inr early)) (late lasts)

/-! ### The whole -/

theorem lands_awaitProcess {c : Child} {source : String} {cur : Option (TaskId × List Frame × Signal)}
    (back : w.Finishes base T S m) (comes : c.IsTimely w.setup.limit → T (.ok c.outcome.1))
    (late : ¬ c.IsTimely w.setup.limit → T (.ok (.failed .processError (timedOutMessage w.setup.limit)))) :
    Lands ((w.stage ⟨[caller fs s], [], [], cur, clock, [⟨c, source, 0, .alive⟩], hist, ms⟩).awaitProcess 0 base 0) S
      (m + 15) := by
  show Lands (if w.setup.limit.isZero then _ else if w.setup.limit.isNegative then _ else _) S (m + 15)
  split
  · rename_i unlimited
    exact (lands_follow back (comes (.inl unlimited))).mono (by omega)
  · rename_i limited
    split
    · rename_i negative
      have untimely : ¬ c.IsTimely w.setup.limit := by simp [Child.IsTimely, limited, negative]
      show Lands (World.park (World.cancel (w.stage ⟨[caller fs s, follower [] (.start (.follow 0)) .turn false],
        [.resume 1], [], _, _, _, _, _⟩) 1) 0 _ (.follower 1)) S (m + 15)
      rw [cancel_due, park_caller]
      exact (lands_stopping back (late untimely) (.inl rfl) (.inl rfl)).mono (by omega)
    · rename_i positive
      refine lands_limited back (fun time => comes (.inr ⟨by simpa using positive, time⟩)) fun lasts past => late ?_
      rintro (unlimited | ⟨-, atOnce | early⟩)
      · exact limited unlimited
      · exact lasts atOnce
      · exact absurd early (Nat.not_lt.2 past)

/-- What a compile comes to that has an editor to itself: what the answers of the search and of the compiler decide, or
that the time is up, if the compiler is started and does not end in time. -/
inductive Affords (limit : Decimal.Number) (found : Except Fault (Option String)) (c : Child) :
    Except Fault Outcome → Prop
  | answered (timely : (∃ exe, found = .ok (some exe)) → c.writeFault = none → c.startFault = none → c.IsTimely limit) :
      Affords limit found c (compileAnswer found c)
  | timedOut {exe : String} (hit : found = .ok (some exe)) (written : c.writeFault = none)
      (started : c.startFault = none)
        (late : ¬ c.IsTimely limit) : Affords limit found c (.ok (.failed .processError (timedOutMessage limit)))

theorem lands_invoke {source exe : String} {cur : Option (TaskId × List Frame × Signal)} (back : w.Finishes base T S m)
    (affords : ∀ o, Affords w.setup.limit (.ok (some exe)) (w.setup.child source) o → T o) :
    Lands ((w.stage ⟨[caller fs s], [], [], cur, clock, [], hist, ms⟩).invoke 0 base (some exe) source) S (m + 15) := by
  unfold World.invoke
  dsimp only
  rw [show ((w.stage _).count "compile.started").setup = w.setup from rfl]
  rcases written : (w.setup.child source).writeFault with _ | m | ⟨name, m⟩
  · rcases started : (w.setup.child source).startFault with _ | m | ⟨name, m⟩
    · refine lands_awaitProcess back (fun timely => ?_) fun late => affords _ (.timedOut rfl written started late)
      have answered := affords _ (.answered fun _ _ _ => timely)
      simpa only [compileAnswer, written, started] using answered
    · have answered := affords _ (.answered fun _ _ unfailed => by rw [started] at unfailed; cases unfailed)
      simp only [compileAnswer, written, started] at answered
      exact (lands_conclude back answered).mono (by omega)
    · have answered := affords _ (.answered fun _ _ unfailed => by rw [started] at unfailed; cases unfailed)
      simp only [compileAnswer, written, started] at answered
      exact (back _ answered _ _ _ _ _ _ _ _ _).mono (by omega)
  · have answered := affords _ (.answered fun _ unfailed => by rw [written] at unfailed; cases unfailed)
    simp only [compileAnswer, written] at answered
    exact (back _ answered _ _ _ _ _ _ _ _ _).mono (by omega)
  · have answered := affords _ (.answered fun _ unfailed => by rw [written] at unfailed; cases unfailed)
    simp only [compileAnswer, written] at answered
    exact (back _ answered _ _ _ _ _ _ _ _ _).mono (by omega)

theorem noteAll_stage (w : World) (x : Scene) (ns : List Note) :
    ∃ hist, (w.stage x).noteAll ns = w.stage { x with history := hist } := by
  induction ns generalizing x with
  | nil => exact ⟨x.history, rfl⟩
  | cons n rest ih => exact ih { x with history := .note n :: x.history }

theorem lands_beginCompile {source : String} {cur : Option (TaskId × List Frame × Signal)}
    (back : w.Finishes base T S m)
    (affords : ∀ o, Affords w.setup.limit w.finder.answer (w.setup.child source) o → T o) :
    Lands ((w.stage ⟨[caller fs s], [], [], cur, clock, [], hist, ms⟩).beginCompile 0 base source) S (m + 15) := by
  unfold World.beginCompile
  obtain ⟨hist', noted⟩ := noteAll_stage w ⟨[caller fs s], [], [], cur, clock, [], hist, ms⟩ w.finder.notes
  rw [show (w.stage _).finder = w.finder from rfl, noted]
  dsimp only
  rw [show (w.stage _).finder = w.finder from rfl]
  rcases found : w.finder.answer with f | _ | exe
  · rw [found] at affords
    exact (back (.error f) (affords _ (.answered nofun)) _ _ _ _ _ _ _ _ _).mono (by omega)
  · rw [found] at affords
    exact (back _ (affords _ (.answered nofun)) _ _ _ _ _ _ _ _ _).mono (by omega)
  · rw [found] at affords
    exact lands_invoke back affords

end

/-- A compile that has an editor to itself ends: with what the answers of the search and of the compiler decide, or with
the time up. -/
theorem finishOp_compile (setup : Setup) (finder : Finder) (gallery : Gallery) (text : String) {fuel : Nat}
    (enough : 20 ≤ fuel) :
    ∃ r o, ((World.start setup finder gallery []).finishOp fuel (.compile text)).1 = some r ∧
      r.signal = answerSignal o ∧
      Affords setup.limit finder.answer (setup.child text) o := by
  let w := World.start setup finder gallery []
  obtain ⟨spare, rfl⟩ := Nat.exists_eq_add_of_le enough
  have finishes : w.Finishes [] (Affords setup.limit finder.answer (setup.child text))
      (fun r => ∃ o, r.signal = answerSignal o ∧ Affords setup.limit finder.answer (setup.child text) o) 1 := by
    rintro (f | o) affords fs s others q al clock ps hist ms
    · exact .tick rfl rfl (.ended (r := .fault f) ⟨_, rfl, affords⟩ rfl)
    · exact .tick rfl rfl (.ended (r := .value (.outcome o)) ⟨_, rfl, affords⟩ rfl)
  have asked : Lands (w.stage ⟨[caller [] (.start (.compile text))], [], [], some (0, [], .start (.compile text)), 0, [], [],
      .new⟩) (fun r => ∃ o, r.signal = answerSignal o ∧ Affords setup.limit finder.answer (setup.child text) o) 20 :=
    Lands.mono (n := 17) (.tick rfl rfl (lands_beginCompile finishes fun _ => id)) (by decide)
  obtain ⟨r, ⟨o, eq, affords⟩, ends⟩ := asked
  exact ⟨r, o, ends spare, eq, affords⟩

/-- An export that has an editor to itself ends: with what its text, its kind and the answers of the search and of the
compiler decide, or with the time up. -/
theorem finishOp_exportAs (setup : Setup) (finder : Finder) (gallery : Gallery) (notes : List Note) (doc text : String)
    (kind : ExportKind) (title : Option String) {fuel : Nat} (enough : 20 ≤ fuel) :
    ∃ r, (((World.start setup finder gallery []).noteAll notes).finishOp fuel (.exportAs doc text kind title)).1 = some r ∧
      (r.signal = exportAnswer gallery.tag text kind title finder.answer (setup.child text) ∨
        setup.limit.isZero = false ∧ kind ≠ .source ∧
          r.signal = .fault (.exportFailed .processError (timedOutMessage setup.limit))) := by
  let w := World.start setup finder gallery []
  obtain ⟨hist, noted⟩ : ∃ hist, w.noteAll notes = w.stage ⟨[], [], [], none, 0, [], hist, .new⟩ :=
    noteAll_stage w ⟨[], [], [], none, 0, [], [], .new⟩ notes
  obtain ⟨spare, rfl⟩ := Nat.exists_eq_add_of_le enough
  rw [show World.start setup finder gallery [] = w from rfl, noted]
  by_cases source : kind = .source
  · subst source
    exact ⟨.value (.exported ⟨.source, text⟩), by rw [Nat.add_comm]; rfl, .inl rfl⟩
  · have finishes : w.Finishes [.exporting doc kind title] (Affords setup.limit finder.answer (setup.child text))
        (fun r => ∃ o, r.signal = w.exportSignal kind title o ∧ Affords setup.limit finder.answer (setup.child text) o) 2 := by
      rintro (f | story | ⟨f, m⟩) affords fs s others q al clock ps hist ms
      · exact .tick rfl rfl (.tick rfl rfl (.ended (r := .fault f) ⟨_, rfl, affords⟩ rfl))
      · exact .tick rfl rfl (.tick rfl rfl
          (.ended (r := .value (.exported ⟨kind, w.exportContent kind title story⟩)) ⟨_, rfl, affords⟩ rfl))
      · exact .tick rfl rfl (.tick rfl rfl (.ended (r := .fault (.exportFailed f m)) ⟨_, rfl, affords⟩ rfl))
    have asked : Lands (w.stage ⟨[caller [] (.start (.exportAs doc text kind title))], [], [],
        some (0, [], .start (.exportAs doc text kind title)), 0, [], hist, .new⟩)
        (fun r => ∃ o, r.signal = w.exportSignal kind title o ∧ Affords setup.limit finder.answer (setup.child text) o)
        20 := by
      cases kind with
      | source => exact absurd rfl source
      | compiled | web =>
        exact Lands.mono (n := 19) (.tick rfl rfl (.tick rfl rfl (lands_beginCompile finishes fun _ => id))) (by decide)
    obtain ⟨r, ⟨o, eq, affords⟩, ends⟩ := asked
    refine ⟨r, ends spare, ?_⟩
    cases affords with
    | answered =>
      rw [eq]
      exact .inl (exportSignal_answer source)
    | timedOut _ _ _ late =>
      have limited : setup.limit.isZero = false := by
        by_contra unlimited
        exact late (.inl (by simpa using unlimited))
      exact .inr ⟨limited, source, eq⟩

end World
end Live
end InkPreview
