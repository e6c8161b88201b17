import InkPreview.Proofs.Gallery
import InkPreview.Proofs.Live.Custody
/-!
Compilation. What a compile may come to is settled as it begins, by what the search for the compiler answers and
by how the compiler behaves on the text; a task that has begun one gets such a result back, unless it is cancelled.
Main statement: `Phase.apply`.
-/
namespace InkPreview.Live
namespace World

/-- The compiler gets its text and can be started on it. -/
def Starts (w : World) (text : String) : Prop :=
  (w.setup.child text).writeFault = none ∧ (w.setup.child text).startFault = none

/-- What a compile of the text may come to that begins now. -/
inductive Comes (w : World) (text : String) : Except Fault Outcome → Prop
  | lost {f : Fault} (found : w.finder.answer = .error f) : Comes w text (.error f)
  | missing (found : w.finder.answer = .ok none) : Comes w text (.ok (.failed .toolMissing toolMissingMessage))
  | unwritten {exe m : String} (found : w.finder.answer = .ok (some exe))
      (fault : (w.setup.child text).writeFault = some (.refused m)) :
      Comes w text (.ok (.failed .ioError (writeFailedMessage m)))
  | unprepared {exe name m : String} (found : w.finder.answer = .ok (some exe))
      (fault : (w.setup.child text).writeFault = some (.crashed name m)) : Comes w text (.error (.setup name m))
  | refused {exe m : String} (found : w.finder.answer = .ok (some exe))
      (written : (w.setup.child text).writeFault = none)
      (fault : (w.setup.child text).startFault = some (.refused m)) : Comes w text (.ok (.failed .processError m))
  | crashed {exe name m : String} (found : w.finder.answer = .ok (some exe))
      (written : (w.setup.child text).writeFault = none)
      (fault : (w.setup.child text).startFault = some (.crashed name m)) : Comes w text (.error (.setup name m))
  | ended {exe : String} (found : w.finder.answer = .ok (some exe)) (starts : w.Starts text) :
      Comes w text (.ok (w.setup.child text).outcome.1)
  | timedOut {exe : String} (found : w.finder.answer = .ok (some exe)) (starts : w.Starts text)
      (limited : w.setup.limit.isZero = false) :
      Comes w text (.ok (.failed .processError (timedOutMessage w.setup.limit)))

/-- What the process comes to is among the results `S`. -/
def Minds (w : World) (S : Except Fault Outcome → Prop) (p : ProcessId) : Prop :=
  ∃ k, w.processes[p]? = some k ∧ S (.ok k.child.outcome.1)

/-- That the time is up is among the results `S`. -/
def Limits (w : World) (S : Except Fault Outcome → Prop) : Prop :=
  S (.ok (.failed .processError (timedOutMessage w.setup.limit)))

/-- Places of a compile, above the frames of what asked for it, from which it gets to one of the results `S`. -/
inductive Doing (w : World) (S : Except Fault Outcome → Prop) : List Frame → Signal → Prop
  | came {o : Except Fault Outcome} (comes : S o) : Doing w S [] (answerSignal o)
  | cancelled : Doing w S [] .cancelled
  | followed {p : ProcessId} (minds : w.Minds S p) : Doing w S [.running p] (.start (.follow p))
  | running {p : ProcessId} {s : Signal} (calm : s.IsCalm) (minds : w.Minds S p) : Doing w S [.running p] s
  | following {p : ProcessId} {s : Signal} (calm : s.IsCalm) (minds : w.Minds S p) :
      Doing w S [.following p, .running p] s
  | limited {p : ProcessId} {f : TaskId} {s : Signal} (calm : s.IsCalm) (minds : w.Minds S p) (limits : w.Limits S) :
      Doing w S [.limited p f] s
  | stopping {p : ProcessId} {why : KillReason} {s : Signal} (calm : s.IsCalm)
      (late : why = .timedOut → w.Limits S) : Doing w S [.stoppingFollower p why] s
  | reaping {p : ProcessId} {why : KillReason} {s : Signal} (calm : s.IsCalm)
      (late : why = .timedOut → w.Limits S) : Doing w S [.reaping p why] s

/-- The task is at such a place, above the frames `base`. -/
def Working (w : World) (S : Except Fault Outcome → Prop) (t : TaskId) (base : List Frame) : Prop :=
  ∃ pre s, w.Doing S pre s ∧ (w.current = some (t, pre ++ base, s) ∨
    pre ≠ [] ∧ s.IsCalm ∧ ∃ wait, w.post? t = some ⟨pre ++ base, s, wait⟩)

/-- The task does not come back to the frames `fs` until the inputs have been taken, and then does with the signal. -/
def ComesBack (w : World) (t : TaskId) (fs : List Frame) (inputs : List Input) (s : Signal) : Prop :=
  (∀ n < inputs.length, fs.length < ((w.run (inputs.take n)).stackOf t).length) ∧
    (w.run inputs).current = some (t, fs, s)

/-- In the course of the inputs a task has begun the operation, and has come back from it with the signal. -/
def Completes (w : World) (inputs : List Input) (op : Op) (s : Signal) : Prop :=
  ∃ before mid after t fs, inputs = before ++ .tick :: (mid ++ after) ∧
    (w.run before).current = some (t, fs, .start op) ∧ (w.run (before ++ [.tick])).ComesBack t fs mid s

/-- How far a task is that was told to compile the text, above the frames `base`: it is about to begin, is under
way, or is back. -/
inductive Phase (w : World) (inputs : List Input) (t : TaskId) (base : List Frame) (text : String) : Prop
  | asked (now : (w.run inputs).current = some (t, base, .start (.compile text)))
  | away {before mid : List Input} (split : inputs = before ++ .tick :: mid)
      (begun : (w.run before).current = some (t, base, .start (.compile text)))
      (above : ∀ n ≤ mid.length, base.length < ((w.run (before ++ .tick :: mid.take n)).stackOf t).length)
      (work : (w.run inputs).Working ((w.run before).Comes text) t base)
  | back {before mid after : List Input} {s : Signal} (split : inputs = before ++ .tick :: (mid ++ after))
      (begun : (w.run before).current = some (t, base, .start (.compile text)))
      (returns : (w.run (before ++ [.tick])).ComesBack t base mid s) (now : (w.run inputs).current = some (t, base, s))
      (result : s = .cancelled ∨ ∃ o, s = answerSignal o ∧ (w.run before).Comes text o)

section
variable {ms : List Mark} {b : Bench} {w v : World} {S : Except Fault Outcome → Prop} {t u : TaskId} {p : ProcessId}
  {base fs pre : List Frame} {s : Signal} {text : String}

/-! ### What stays fixed -/

/-- The time limit, how it is waited under, and the tag of the pages are the same. -/
structure Fixed (w v : World) : Prop where
  limit : v.setup.limit = w.setup.limit
  heedsLate : v.setup.heedsLate = w.setup.heedsLate
  tag : v.gallery.tag = w.gallery.tag

theorem Fixed.refl (w : World) : w.Fixed w := ⟨rfl, rfl, rfl⟩

theorem Fixed.trans {x : World} (h : w.Fixed v) (h' : v.Fixed x) : w.Fixed x :=
  ⟨h'.limit.trans h.limit, h'.heedsLate.trans h.heedsLate, h'.tag.trans h.tag⟩

theorem Fixed.of_eq (setup : v.setup = w.setup) (gallery : v.gallery = w.gallery) : w.Fixed v :=
  ⟨by rw [setup], by rw [setup], by rw [gallery]⟩

theorem Nudges.fixed {H : TaskId → Prop} (h : Nudges H w v) : w.Fixed v := .of_eq h.setup h.gallery

theorem Aside.fixed (h : Aside t w v) : w.Fixed v := by
  cases h with
  | alike h => exact .of_eq h.setup h.gallery
  | stop | forestall => exact .of_eq (cancel_nudges _ _).setup (cancel_nudges _ _).gallery
  | @enroll us =>
    obtain ⟨ks, js, eq, -⟩ := enroll_eq w t us
    exact .of_eq (by rw [eq]) (by rw [eq])
  | files | call | process | launch | spawn | follow => exact .of_eq rfl rfl

theorem Deeds.fixed {now : World} (h : now.Deeds w v) : w.Fixed v := by
  induction h with
  | refl => exact .refl _
  | tail _ step ih =>
    refine ih.trans ?_
    cases step with
    | aside h => exact h.fixed
    | cancel => exact (cancel_nudges _ _).fixed
    | render doc mode => exact ⟨rfl, rfl, Gallery.tag_render _ _ _⟩
    | slots | gauge | discard | call | hire => exact ⟨rfl, rfl, rfl⟩

theorem setup_park (w : World) (t : TaskId) (fs : List Frame) (wait : Wait) : (w.park t fs wait).setup = w.setup :=
  park_same Nudges.setup (fun _ _ _ _ _ => rfl) w t fs wait

theorem land_fixed (w : World) (t : TaskId) (l : Landing) : w.Fixed (w.land t l) :=
  .of_eq (land_same Nudges.setup (fun _ _ _ _ _ => rfl) w t l) (land_same Nudges.gallery (fun _ _ _ _ _ => rfl) w t l)

theorem Stirs.fixed {i : Input} (h : Stirs i w v) : w.Fixed v := by
  induction h with
  | refl => exact .refl _
  | tail _ step ih =>
    refine ih.trans ?_
    cases step with
    | alike h => exact .of_eq h.setup h.gallery
    | nudge h => exact (Nudges.one h).fixed
    | cancel => exact (cancel_nudges _ _).fixed
    | later | child | enables | dates | taken | counts | spawn => exact ⟨rfl, rfl, rfl⟩

theorem Sane.apply_fixed (h : w.Sane) (i : Input) : w.Fixed (w.apply i) := by
  have happens := w.apply_happens i
  generalize w.apply i = v at *
  cases happens with
  | @moves t fs s running =>
    obtain ⟨x, l, deeds, -, eq⟩ := h.reaches running
    rw [eq]
    exact deeds.fixed.trans (land_fixed x t l)
  | @resumes t rest =>
    obtain ⟨ks, cur, eq⟩ := resume_eq { w with queue := rest } t
    rw [eq]
    exact ⟨rfl, rfl, rfl⟩
  | forgets | launches | subscribes => exact ⟨rfl, rfl, rfl⟩
  | stirs stirred => exact stirred.fixed

theorem Sane.run_fixed {inputs : List Input} (h : w.Sane) (allowed : ∀ i ∈ inputs, i.IsPublic) :
    w.Fixed (w.run inputs) := by
  induction inputs generalizing w with
  | nil => exact .refl w
  | cons i rest ih =>
    have next := (h.apply (allowed i (by simp))).sane
    exact (h.apply_fixed i).trans (ih next fun j mem => allowed j (List.mem_cons_of_mem i mem))

/-! ### One step of a compile -/

theorem Doing.mono (h : w.Doing S pre s) (limit : v.setup.limit = w.setup.limit)
    (minds : ∀ p, w.Minds S p → v.Minds S p) : v.Doing S pre s := by
  have limits : w.Limits S → v.Limits S := fun h => by rwa [Limits, limit]
  cases h with
  | came comes => exact .came comes
  | cancelled => exact .cancelled
  | followed h => exact .followed (minds _ h)
  | running calm h => exact .running calm (minds _ h)
  | following calm h => exact .following calm (minds _ h)
  | limited calm h h' => exact .limited calm (minds _ h) (limits h')
  | stopping calm late => exact .stopping calm fun eq => limits (late eq)
  | reaping calm late => exact .reaping calm fun eq => limits (late eq)

theorem Doing.same (h : w.Doing S pre s) (setup : v.setup = w.setup) (processes : v.processes = w.processes) :
    v.Doing S pre s :=
  h.mono (by rw [setup]) fun _ minds => by rwa [Minds, processes]

/-- What waits may be woken or cancelled. -/
theorem Doing.calm {s' : Signal} (h : w.Doing S pre s) (above : pre ≠ []) (calm : s.IsCalm) (calm' : s'.IsCalm) :
    w.Doing S pre s' := by
  cases h with
  | came | cancelled => exact absurd rfl above
  | followed => exact calm.elim
  | running _ minds => exact .running calm' minds
  | following _ minds => exact .following calm' minds
  | limited _ minds limits => exact .limited calm' minds limits
  | stopping _ late => exact .stopping calm' late
  | reaping _ late => exact .reaping calm' late

theorem Working.now (pre : List Frame) (doing : w.Doing S pre s) (now : w.current = some (t, pre ++ base, s)) :
    w.Working S t base := ⟨pre, s, doing, .inl now⟩

/-- A compile stops to wait. -/
theorem working_park (there : t < w.tasks.length) (above : pre ≠ []) (doing : ∀ s, s.IsCalm → w.Doing S pre s)
    (base : List Frame) (wait : Wait) : (w.park t (pre ++ base) wait).Working S t base := by
  obtain ⟨s, wait', found, calm⟩ := land_post there (pre ++ base) wait
  exact ⟨pre, s, (doing s calm).same (setup_park _ _ _ _) (processes_park _ _ _ _), .inr ⟨above, calm, wait', found⟩⟩

theorem working_sleep (there : t < w.tasks.length) (above : pre ≠ []) (doing : ∀ s, s.IsCalm → w.Doing S pre s)
    (base : List Frame) (micros : Int) : (w.sleep t (pre ++ base) micros).Working S t base := by
  unfold sleep
  split
  · obtain ⟨pre', s, doing', rest⟩ := working_park there above doing base .turn
    exact ⟨pre', s, doing'.same rfl rfl, rest⟩
  · exact working_park (w := w.setAlarm t micros.toNat) there above (fun s calm => (doing s calm).same rfl rfl) base .alarm

theorem working_conclude {o : Outcome} (comes : S (.ok o)) : (w.conclude t base o).Working S t base :=
  .now [] (.came comes) rfl

theorem working_readOutcome (minds : w.Minds S p) : (w.readOutcome t base p).Working S t base := by
  obtain ⟨k, found, comes⟩ := minds
  simp only [readOutcome, found]
  exact working_conclude comes

theorem working_reaped {why : KillReason} (late : why = .timedOut → w.Limits S) :
    (w.reaped t base why).Working S t base := by
  cases why with
  | timedOut => exact working_conclude (late rfl)
  | cancelled => exact .now [] .cancelled rfl

theorem working_kill (there : t < w.tasks.length) {why : KillReason} (late : why = .timedOut → w.Limits S) :
    (w.kill t base p why).Working S t base := by
  unfold kill
  split
  · dsimp only
    split
    · exact working_reaped late
    · split
      · exact working_reaped late
      · let x := (w.setProcess p .killed).emit (.killed w.clock p)
        exact working_sleep (w := x) there (List.cons_ne_nil _ _) (fun s calm => .reaping calm late) base _
  · exact working_reaped late

theorem working_stopFollower (there : t < w.tasks.length) {f : TaskId} {why : KillReason}
    (late : why = .timedOut → w.Limits S) : (w.stopFollower t base p f why).Working S t base := by
  let x := w.modifyTask f fun k => { k with watchers := [.report t f] }
  have stopped : Nudges anyone x (x.cancel f) := cancel_nudges x f
  have there' : t < (x.cancel f).tasks.length := Nat.lt_of_lt_of_eq there (length_stopped w t f).symm
  have stopping : ∀ s : Signal, s.IsCalm → w.Doing S [.stoppingFollower p why] s := fun s calm => .stopping calm late
  exact working_park (w := x.cancel f) there' (List.cons_ne_nil _ _)
    (fun s calm => (stopping s calm).same stopped.setup stopped.processes) base (.follower f)

theorem working_limitedWaitOver (there : t < w.tasks.length) {f : TaskId} {why : KillReason} (minds : w.Minds S p)
    (limits : w.Limits S) : (w.limitedWaitOver t base p f why).Working S t base := by
  unfold limitedWaitOver
  split
  · split
    · exact working_kill there nofun
    · split
      · exact working_reaped nofun
      · exact working_readOutcome minds
  · exact working_stopFollower there fun _ => limits

/-- A process that ends goes on to be run as it was. -/
theorem Minds.setProcess (h : w.Minds S p) (q : ProcessId) (x : ProcessState) : (w.setProcess q x).Minds S p := by
  obtain ⟨k, found, comes⟩ := h
  simp only [Minds, World.setProcess, List.getElem?_modify, found]
  refine ⟨_, rfl, ?_⟩
  split
  · exact comes
  · exact comes

theorem working_processExited (minds : w.Minds S p) :
    (w.processExited t (.running p :: base) p).Working S t base := by
  obtain ⟨k, found, -⟩ := id minds
  simp only [processExited, found]
  have exited : (w.setProcess p .exited).Doing S [.running p] (.value .unit) :=
    .running trivial (minds.setProcess p .exited)
  exact .now [.running p] (exited.same rfl rfl) rfl

theorem working_beginFollow (there : t < w.tasks.length) (minds : w.Minds S p) :
    (w.beginFollow t (.running p :: base) p).Working S t base := by
  obtain ⟨k, found, -⟩ := id minds
  simp only [beginFollow, found]
  split
  · exact working_processExited minds
  · exact working_sleep there (List.cons_ne_nil _ _) (fun s calm => .following calm minds) base _

/-- A compile that is under way goes on, or comes to one of its results. -/
theorem Doing.move (h : w.Doing S pre s) (there : t < w.tasks.length) (above : pre ≠ []) :
    (w.move t (pre ++ base) s).Working S t base := by
  cases h with
  | came | cancelled => exact absurd rfl above
  | followed minds => exact working_beginFollow there minds
  | running calm minds =>
    cases s with
    | start | fault => exact calm.elim
    | value => exact working_readOutcome minds
    | cancelled => exact working_kill there nofun
  | @following p _ calm minds =>
    cases s with
    | start | fault => exact calm.elim
    | value => exact working_processExited minds
    | cancelled =>
      have broken : w.Doing S [.running p] .cancelled := .running trivial minds
      exact .now [.running p] (broken.same rfl rfl) rfl
  | limited calm minds limits =>
    cases s with
    | start | fault => exact calm.elim
    | value => exact working_limitedWaitOver there minds limits
    | cancelled => exact working_limitedWaitOver there minds limits
  | stopping calm late =>
    cases s with
    | start | fault => exact calm.elim
    | value => exact working_kill there late
    | cancelled => exact working_kill there nofun
  | reaping calm late =>
    cases s with
    | start | fault => exact calm.elim
    | value => exact working_reaped (w := w.emit _) late
    | cancelled => exact .now [] .cancelled rfl

/-! ### How a compile begins -/

theorem working_awaitProcess (there : t < w.tasks.length) (minds : w.Minds S p)
    (limits : w.setup.limit.isZero = false → w.Limits S) : (w.awaitProcess t base p).Working S t base := by
  unfold awaitProcess
  dsimp only
  split
  · exact .now [.running p] (.followed minds) rfl
  · rename_i limited
    have limits := limits (by simpa using limited)
    let x := (w.spawn (.follow p) fun f => [.report t f]).2
    have there' : t < x.tasks.length := lt_length_spawn there _ _
    split
    · exact working_stopFollower (w := x) there' fun _ => limits
    · exact working_park (w := x.setAlarm t w.setup.limit.millionths.toNat) there' (List.cons_ne_nil _ _)
        (fun s calm => .limited calm minds limits) base _

theorem working_invoke {executable : Option String} (there : t < w.tasks.length)
    (found : w.finder.answer = .ok executable) (comes : ∀ o, w.Comes text o → S o) :
    (w.invoke t base executable text).Working S t base := by
  unfold invoke
  cases executable with
  | none => exact .now [] (.came (comes _ (.missing found))) rfl
  | some exe =>
    dsimp only
    split
    · rename_i m fault
      exact .now [] (.came (comes _ (.unwritten found fault))) rfl
    · rename_i name m fault
      exact .now [] (.came (comes _ (.unprepared found fault))) rfl
    · rename_i written
      split
      · rename_i m fault
        exact working_conclude (comes _ (.refused found written fault))
      · rename_i name m fault
        exact .now [] (.came (comes _ (.crashed found written fault))) rfl
      · rename_i started
        refine working_awaitProcess there ?_ fun limited => comes _ (.timedOut found ⟨written, started⟩ limited)
        exact ⟨_, List.getElem?_concat_length, comes _ (.ended found ⟨written, started⟩)⟩

theorem finder_noteAll (w : World) (ns : List Note) : (w.noteAll ns).finder = w.finder := by
  induction ns generalizing w with
  | nil => rfl
  | cons n rest ih => exact ih (w.note n)

/-- A compile that begins is under way or has come to what it may come to. -/
theorem working_beginCompile (there : t < w.tasks.length) (base : List Frame) (text : String) :
    (w.beginCompile t base text).Working (w.Comes text) t base := by
  have noted := Alike.noteAll w w.finder.notes
  have finder := finder_noteAll w w.finder.notes
  unfold beginCompile
  dsimp only
  split
  · rename_i f found
    exact .now [] (.came (.lost (finder ▸ found))) rfl
  · rename_i exe found
    refine working_invoke (noted.tasks ▸ there) found fun o comes => ?_
    have starts : (w.noteAll w.finder.notes).Starts text → w.Starts text := by
      rw [Starts, noted.setup]
      exact id
    cases comes with
    | lost found => exact .lost (finder ▸ found)
    | missing found => exact .missing (finder ▸ found)
    | unwritten found fault => exact .unwritten (finder ▸ found) (noted.setup ▸ fault)
    | unprepared found fault => exact .unprepared (finder ▸ found) (noted.setup ▸ fault)
    | refused found written fault => exact .refused (finder ▸ found) (noted.setup ▸ written) (noted.setup ▸ fault)
    | crashed found written fault => exact .crashed (finder ▸ found) (noted.setup ▸ written) (noted.setup ▸ fault)
    | ended found started =>
      rw [noted.setup]
      exact .ended (finder ▸ found) (starts started)
    | timedOut found started limited =>
      rw [noted.setup] at limited ⊢
      exact .timedOut (finder ▸ found) (starts started) limited

/-! ### The course of a compile -/

section
variable {mid : List Input} {i : Input}

theorem ComesBack.tail (h : w.ComesBack t fs (i :: mid) s) : (w.apply i).ComesBack t fs mid s :=
  ⟨fun n lt => h.1 (n + 1) (Nat.succ_lt_succ lt), h.2⟩

theorem ComesBack.longer (h : w.ComesBack t fs (i :: mid) s) : fs.length < (w.stackOf t).length :=
  h.1 0 (Nat.succ_pos _)

/-- A task that is back already comes back with the signal it has. -/
theorem ComesBack.at_once {s' : Signal} (h : w.ComesBack t fs mid s) (now : w.current = some (t, fs, s')) :
    mid = [] ∧ s = s' := by
  cases mid with
  | nil =>
    cases now.symm.trans h.2
    exact ⟨rfl, rfl⟩
  | cons i rest =>
    have longer := h.longer
    rw [stackOf_running now] at longer
    exact absurd longer (Nat.lt_irrefl _)

end

theorem Flight.stackOf_post (h : Flight ms b w) {q : Post} (found : w.post? t = some q) : w.stackOf t = q.frames := by
  by_cases runs : ∃ fs s, w.current = some (t, fs, s)
  · obtain ⟨fs, s, running⟩ := runs
    obtain rfl := Option.some.inj ((h.post?_running running).symm.trans found)
    exact stackOf_running running
  · rw [post?_other fun fs s running => runs ⟨fs, s, running⟩] at found
    obtain ⟨k, at_t, rfl⟩ := Option.map_eq_some_iff.1 found
    unfold stackOf
    split
    · rename_i u fs s running
      have other : u ≠ t := by
        rintro rfl
        exact runs ⟨fs, s, running⟩
      simp [other, at_t, Task.post]
    · simp [at_t, Task.post]

/-- A task that runs, or waits with a signal, runs where it is known to be. -/
theorem Flight.at_place (h : Flight ms b w) {gs : List Frame} {s' : Signal} {higher calm : Prop}
    (place : w.current = some (t, gs, s') ∨ higher ∧ calm ∧ ∃ wait, w.post? t = some ⟨gs, s', wait⟩)
    (running : w.current = some (t, fs, s)) : fs = gs ∧ s' = s := by
  rcases place with now | ⟨-, -, wait, found⟩
  · cases running.symm.trans now
    exact ⟨rfl, rfl⟩
  · obtain ⟨frames, signal, -⟩ := Post.mk.inj (Option.some.inj ((h.post?_running running).symm.trans found))
    exact ⟨frames, signal.symm⟩

/-- A task that is back from a compile has one of the results, or was cancelled. -/
theorem Working.back (h : w.Working S t base) (flight : Flight ms b w) (now : w.current = some (t, base, s)) :
    s = .cancelled ∨ ∃ o, s = answerSignal o ∧ S o := by
  obtain ⟨pre, s', doing, place⟩ := h
  obtain ⟨frames, rfl⟩ := flight.at_place place now
  obtain rfl : pre = [] := by simpa using frames
  cases doing with
  | came comes => exact .inr ⟨_, rfl, comes⟩
  | cancelled => exact .inl rfl

theorem Working.place (h : w.Working S t base) (flight : Flight ms b w) :
    (∃ s, w.current = some (t, base, s)) ∨ base.length < (w.stackOf t).length := by
  obtain ⟨pre, s, -, place⟩ := h
  have longer (above : pre ≠ []) (stack : w.stackOf t = pre ++ base) : base.length < (w.stackOf t).length := by
    have := List.length_pos_iff.2 above
    rw [stack, List.length_append]
    omega
  rcases place with now | ⟨above, -, wait, found⟩
  · by_cases above : pre = []
    · subst above
      exact .inl ⟨s, now⟩
    · exact .inr (longer above (stackOf_running now))
  · exact .inr (longer above (flight.stackOf_post found))

/-- Whatever happens, a task that is under way with a compile goes on with it. -/
theorem Flight.apply_working (h : Flight ms b w) (work : w.Working S t base) {i : Input} (allowed : i.IsPublic)
    (away : ∀ s, i = .tick → w.current ≠ some (t, base, s)) : (w.apply i).Working S t base := by
  obtain ⟨pre, s, doing, place⟩ := work
  by_cases steps : w.Steps i t
  · obtain ⟨rfl, fs, s', running⟩ := steps
    obtain ⟨rfl, rfl⟩ := h.at_place place running
    have above : pre ≠ [] := by
      rintro rfl
      exact away _ rfl running
    rw [show w.apply .tick = w.move t (pre ++ base) s from tick_running running]
    exact doing.move (h.there running) above
  · have next : (w.apply i).Doing S pre s := by
      refine doing.mono (h.sane.apply_fixed i).limit ?_
      rintro p ⟨k, found, comes⟩
      obtain ⟨k', found', child⟩ := (h.apply_bred i).1.old found
      exact ⟨k', found', child ▸ comes⟩
    rcases place with now | ⟨above, calm, wait, found⟩
    · have still : i ≠ .tick := fun tick => steps ⟨tick, _, _, now⟩
      exact .now pre next (current_apply now still)
    · obtain ⟨s', wait', calm', found'⟩ := h.apply_calm allowed found calm steps
      exact ⟨pre, s', next.calm above calm calm', .inr ⟨above, calm', wait', found'⟩⟩

/-- A compile that has begun is under way or back, as long as it has not been back before. -/
theorem Phase.of_working {inputs before mid : List Input} (split : inputs = before ++ .tick :: mid)
    (begun : (w.run before).current = some (t, base, .start (.compile text)))
    (above : ∀ n < mid.length, base.length < ((w.run (before ++ .tick :: mid.take n)).stackOf t).length)
    (work : (w.run inputs).Working ((w.run before).Comes text) t base) (flight : Flight ms b (w.run inputs)) :
    w.Phase inputs t base text := by
  rcases work.place flight with ⟨s, now⟩ | longer
  · have returns : (w.run (before ++ [.tick])).ComesBack t base mid s := by
      refine ⟨fun n lt => ?_, ?_⟩
      · rw [← run_append, List.append_assoc]
        exact above n lt
      · rw [← run_append, List.append_assoc]
        exact split ▸ now
    have whole : inputs = before ++ .tick :: (mid ++ []) := by simpa using split
    exact .back whole begun returns now (work.back flight now)
  · refine .away split begun (fun n le => ?_) work
    rcases Nat.lt_or_eq_of_le le with lt | rfl
    · exact above n lt
    · rw [List.take_length, ← split]
      exact longer

/-- Whatever happens, a task that was told to compile begins, goes on, and gets back, and is back until it goes on. -/
theorem Phase.apply {inputs : List Input} (h : w.Phase inputs t base text) (flight : Flight ms b (w.run inputs))
    {i : Input} (allowed : i.IsPublic)
    (away : ∀ s, i = .tick → s.IsEnd → (w.run inputs).current ≠ some (t, base, s)) :
    w.Phase (inputs ++ [i]) t base text := by
  have flight' := flight.apply allowed
  have run : w.run (inputs ++ [i]) = (w.run inputs).apply i := by simp [World.run]
  rw [← run] at flight'
  cases h with
  | asked now =>
    by_cases tick : i = .tick
    · subst tick
      have begins : w.run (inputs ++ [.tick]) = (w.run inputs).beginCompile t base text := run.trans (tick_running now)
      have split : inputs ++ [.tick] = inputs ++ .tick :: [] := rfl
      refine .of_working split now (by simp) ?_ flight'
      rw [begins]
      exact working_beginCompile (flight.there now) base text
    · refine .asked ?_
      rw [run]
      exact current_apply now tick
  | @away before mid split begun above work =>
    have longer : inputs ++ [i] = before ++ .tick :: (mid ++ [i]) := by simp [split]
    refine .of_working longer begun (fun n lt => ?_) ?_ flight'
    · have le : n ≤ mid.length := by
        rw [List.length_append, List.length_singleton] at lt
        omega
      rw [List.take_append_of_le_length le]
      exact above n le
    · rw [run]
      refine flight.apply_working work allowed fun s _ now => ?_
      have longer := above mid.length (Nat.le_refl _)
      rw [List.take_length, ← split, stackOf_running now] at longer
      exact Nat.lt_irrefl _ longer
  | @back before mid after s split begun returns now result =>
    have still : i ≠ .tick := by
      rintro rfl
      refine away s rfl ?_ now
      rcases result with rfl | ⟨o, rfl, -⟩
      · trivial
      · exact answerSignal_end o
    have later : inputs ++ [i] = before ++ .tick :: (mid ++ (after ++ [i])) := by simp [split]
    refine .back later begun returns ?_ result
    rw [run]
    exact current_apply now still

end
end World
end InkPreview.Live
