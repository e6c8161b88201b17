import InkPreview.Proofs.Live.Counting
import InkPreview.Proofs.Live.Stacks
import Mathlib.Algebra.BigOperators.Group.Finset.Basic
import Mathlib.Algebra.GroupWithZero.Nat
/-!
The balance of compilers. Every compiler that is started is still at work, or has come to an outcome, which is
counted by its kind, or has gone another way: its source could not be written, starting it crashed, or whoever
waited for it was cancelled. Main statement: `compilers_balance`.
-/
namespace InkPreview.Live

/-- What becomes of a compiler. -/
inductive Fate
  | begun
  /-- A task that has started it gets the outcome. -/
  | concluded (o : Outcome)
  /-- Its source could not be written, which is handed back as a failure. -/
  | unwritten
  | broken
  | cancelled
  deriving DecidableEq, Repr

namespace Fate

def counter? : Fate → Option Counter
  | begun => some .started
  | concluded o => some o.counter
  | _ => none

/-- The compiler is over. -/
def ends : Fate → Bool
  | begun => false
  | _ => true

/-- The compiler is over and nothing has been counted for that. -/
def isLost : Fate → Bool
  | unwritten | broken | cancelled => true
  | _ => false

end Fate

/-- What becomes of a compiler whose caller goes on with the signal. -/
def Signal.fate : Signal → List Fate
  | .value (.outcome o) => [.concluded o]
  | .fault _ => [.broken]
  | .cancelled => [.cancelled]
  | _ => []

/-- The processes that the frames stand for. -/
def children (fs : List Frame) : List ProcessId := fs.filterMap Frame.child?

/-- Operations other than a compile push no frame of a compiler. -/
theorem Op.Lands.idle {fs : List Frame} {op : Op} {n : TaskId} {l : Landing} (h : op.Lands n fs l)
    (other : ∀ text, op ≠ .compile text) : children l.frames = children fs := by
  have onto : ∀ {pushed : List Frame}, children pushed = [] → children (pushed ++ fs) = children fs := by
    intro pushed none
    rw [children, List.filterMap_append, ← children, ← children, none, List.nil_append]
  cases h with
  | opens h =>
    refine onto ?_
    cases h with
    | compile => exact absurd rfl (other _)
    | _ => rfl
  | waits h =>
    refine onto ?_
    cases h with
    | compile => exact absurd rfl (other _)
    | _ => rfl
  | turn h | timed h => exact onto (by cases h <;> rfl)
  | limited eq => exact absurd eq (other _)
  | answers h => exact onto (by cases h <;> rfl)

/-- A counter of compilers. -/
inductive Counts : Counter → Prop
  | started : Counts .started
  | succeeded : Counts .succeeded
  | failed (k : Failure) : Counts (.failed k)

namespace World
variable {ms : List Mark} {b : Bench} {w v : World} {t u f : TaskId} {p : ProcessId} {fs : List Frame} {s : Signal}
  {text : String} {c : Counter}

/-- What has become of the compiler that the running task comes from. -/
def fate (w : World) : List Fate :=
  match w.current with
  | some (_, _, s) => s.fate
  | none => []

/-- What becomes of compilers in the next step. -/
def fates (w : World) : List Fate :=
  match w.current with
  | some (_, _, .start (.compile text)) =>
    match w.finder.answer with
    | .ok (some _) =>
      .begun :: if (w.setup.child text).writeFault.isSome then [.unwritten] else w.tick.fate
    | _ => []
  | some (_, _, .start _) => []
  | some (_, f :: _, _) => if f.runs then w.tick.fate else []
  | _ => []

/-- What an input makes of compilers. -/
def fated (w : World) : Input → List Fate
  | .tick => w.fates
  | _ => []

def fatesAlong (w : World) : List Input → List Fate
  | [] => []
  | i :: rest => w.fated i ++ (w.apply i).fatesAlong rest

/-- The counters that an input adds one to, if it is a step of the task. -/
def ownScored (w : World) (t : TaskId) : Input → List Counter
  | .tick =>
    match w.current with
    | some (u, _, _) => if u = t then w.scores else []
    | none => []
  | _ => []

/-- What the task counts in the course of the inputs. -/
def ownScores (w : World) (t : TaskId) : List Input → List Counter
  | [] => []
  | i :: rest => w.ownScored t i ++ (w.apply i).ownScores t rest

/-- The processes that a task has started and not seen the last of. -/
def charges (w : World) (u : TaskId) : List ProcessId := children (w.stackOf u)

/-- How many compilers are at work. -/
def engaged (w : World) : Nat := ∑ u ∈ Finset.range w.tasks.length, (w.charges u).length

theorem fate_running (running : w.current = some (t, fs, s)) : w.fate = s.fate := by simp [fate, running]

theorem fate_idle (idle : w.current = none) : w.fate = [] := by simp [fate, idle]

/-! ### What is counted -/

theorem concluded_eq (w : World) : w.concluded = w.fate.filterMap Fate.counter? := by
  unfold concluded fate
  cases w.current with
  | none => rfl
  | some p =>
    obtain ⟨t, fs, s⟩ := p
    cases s with
    | value v => cases v <;> rfl
    | start | fault | cancelled => rfl

/-- Of compilers, a step counts what becomes of them. -/
theorem count_scores (counts : Counts c) (w : World) :
    w.scores.count c = (w.fates.filterMap Fate.counter?).count c := by
  have concluded := congrArg (List.count c) (concluded_eq w.tick)
  unfold scores fates
  cases running : w.current with
  | none => rfl
  | some p =>
    obtain ⟨t, fs, s⟩ := p
    have ended : ∀ f rest s, s.IsEnd → fs = f :: rest →
        (w.scoresAt s f).count c = ((if f.runs then w.tick.fate else []).filterMap Fate.counter?).count c := by
      intro f rest s ends eq
      cases f with
      | running | limited | stoppingFollower | reaping => exact concluded
      | holding r =>
        rw [show (Frame.holding r).runs = false from rfl, if_neg Bool.false_ne_true]
        simp only [scoresAt]
        repeat' split
        all_goals cases counts <;> rfl
      | notifying u js =>
        rw [show (Frame.notifying u js).runs = false from rfl, if_neg Bool.false_ne_true]
        simp only [scoresAt]
        split
        all_goals cases counts <;> rfl
      | _ => rfl
    cases s with
    | start op =>
      cases op with
      | compile text =>
        simp only [scoresOf]
        cases w.finder.answer with
        | error e => rfl
        | ok exe =>
          cases exe with
          | none => rfl
          | some exe =>
            dsimp only
            split
            · rfl
            · simp [Fate.counter?, List.count_cons, concluded]
      | edit doc text => cases counts <;> simp [scoresOf, List.count_eq_zero]
      | _ => rfl
    | value v =>
      cases fs with
      | nil => rfl
      | cons f rest => exact ended f rest (.value v) trivial rfl
    | fault e =>
      cases fs with
      | nil => rfl
      | cons f rest => exact ended f rest (.fault e) trivial rfl
    | cancelled =>
      cases fs with
      | nil => rfl
      | cons f rest => exact ended f rest .cancelled trivial rfl

/-! ### One step of a compiler -/

/-- A task that has started a process, above the frames, is about to follow it or is left waiting; or it is done with
the process, and what has become of that shows in what those frames go on with. -/
inductive Attends (v : World) (t : TaskId) (fs : List Frame) (p : ProcessId) : Prop
  | back {s : Signal} (now : v.current = some (t, fs, s)) (fate : s.fate.length = 1)
  | begins {f : Frame} (now : v.current = some (t, f :: fs, .start (.follow p))) (child : f.child? = some p)
  | waits {f : Frame} (idle : v.current = none) (stack : v.stackOf t = f :: fs) (child : f.child? = some p)

theorem attends_conclude (o : Outcome) (p : ProcessId) : (w.conclude t fs o).Attends t fs p := .back rfl rfl

theorem attends_readOutcome (p : ProcessId) : (w.readOutcome t fs p).Attends t fs p := by
  unfold readOutcome
  split
  · exact attends_conclude _ p
  · exact attends_conclude _ p

theorem attends_reaped (p : ProcessId) (why : KillReason) : (w.reaped t fs why).Attends t fs p := by
  cases why with
  | timedOut => exact .back rfl rfl
  | cancelled => exact .back rfl rfl

theorem attends_kill (there : t < w.tasks.length) (p : ProcessId) (why : KillReason) :
    (w.kill t fs p why).Attends t fs p := by
  unfold kill
  split
  · let x := (w.setProcess p .killed).emit (.killed w.clock p)
    dsimp only
    split
    · exact attends_reaped p why
    · split
      · exact attends_reaped p why
      · exact .waits (current_sleep x t _ _) (stackOf_sleep (w := x) there _ _) rfl
  · exact attends_reaped p why

theorem attends_stopFollower (there : t < w.tasks.length) (p : ProcessId) (f : TaskId) (why : KillReason) :
    (w.stopFollower t fs p f why).Attends t fs p := by
  have there' : t < ((w.modifyTask f fun k => { k with watchers := [.report t f] }).cancel f).tasks.length := by
    rw [(cancel_nudges _ f).length]
    simpa [modifyTask] using there
  exact .waits (current_park _ t _ _) (stackOf_park there' _ _) rfl

theorem attends_limitedWaitOver (there : t < w.tasks.length) (p : ProcessId) (f : TaskId) (why : KillReason) :
    (w.limitedWaitOver t fs p f why).Attends t fs p := by
  unfold limitedWaitOver
  split
  · split
    · exact attends_kill there p .cancelled
    · split
      · exact attends_reaped p .cancelled
      · exact attends_readOutcome p
  · exact attends_stopFollower there p f why

theorem attends_awaitProcess (there : t < w.tasks.length) (p : ProcessId) : (w.awaitProcess t fs p).Attends t fs p := by
  unfold awaitProcess
  dsimp only
  have there' : t < (w.spawn (.follow p) fun f => [.report t f]).2.tasks.length := lt_length_spawn there _ _
  split
  · exact .begins rfl rfl
  · split
    · exact attends_stopFollower there' p _ .timedOut
    · exact .waits (current_park _ t _ _) (stackOf_land there' (.timed _ _ _)) rfl

theorem attends_invoke (there : t < w.tasks.length) (exe : String) {text : String}
    (written : (w.setup.child text).writeFault = none) :
    (w.invoke t fs (some exe) text).Attends t fs w.processes.length := by
  have wrote : ((w.count "compile.started").setup.child text).writeFault = none := written
  unfold invoke
  dsimp only
  rw [wrote]
  dsimp only
  split
  · exact attends_conclude (w := (w.count "compile.started").note _) _ _
  · exact .back rfl rfl
  · exact attends_awaitProcess (w := World.emit { w.count "compile.started" with processes := _ } _) there _

/-- A step from above the frames, at a process that is not done with. -/
theorem attends_move (there : t < w.tasks.length) {f : Frame} (child : f.child? = some p) (ends : s.IsEnd) :
    (w.move t (f :: fs) s).Attends t fs p := by
  cases f with
  | running q =>
    obtain rfl := Option.some.inj child
    cases s with
    | start => exact ends.elim
    | value => exact attends_readOutcome q
    | fault => exact .back rfl rfl
    | cancelled => exact attends_kill there q .cancelled
  | limited q u =>
    obtain rfl := Option.some.inj child
    cases s with
    | start => exact ends.elim
    | value => exact attends_limitedWaitOver there q u .timedOut
    | fault => exact .back rfl rfl
    | cancelled => exact attends_limitedWaitOver there q u .cancelled
  | stoppingFollower q why =>
    obtain rfl := Option.some.inj child
    cases s with
    | start => exact ends.elim
    | value => exact attends_kill there q why
    | fault => exact .back rfl rfl
    | cancelled => exact attends_kill there q .cancelled
  | reaping q why =>
    obtain rfl := Option.some.inj child
    cases s with
    | start => exact ends.elim
    | value => exact attends_reaped (w := w.emit _) q why
    | fault | cancelled => exact .back rfl rfl
  | _ => cases child

theorem Attends.fate_ends (h : v.Attends t fs p) : ∀ x ∈ v.fate, x.ends = true := by
  have ends : ∀ s : Signal, ∀ x ∈ s.fate, x.ends = true := by
    intro s x mem
    cases s with
    | value y => cases y <;> simp_all [Signal.fate, Fate.ends]
    | _ => simp_all [Signal.fate, Fate.ends]
  cases h with
  | back now => exact fate_running now ▸ ends _
  | begins now => exact fate_running now ▸ ends _
  | waits idle => simp [fate_idle idle]

/-- The process is a charge of the task, or its fate is known. -/
theorem Attends.charges (h : v.Attends t fs p) : v.charges t = p :: children fs ∧ v.fate = [] ∨
    v.charges t = children fs ∧ v.fate.length = 1 := by
  cases h with
  | back now fate => exact .inr ⟨by rw [World.charges, stackOf_running now], by rw [fate_running now, fate]⟩
  | begins now child =>
    exact .inl ⟨by simp [World.charges, children, stackOf_running now, child], by rw [fate_running now]; rfl⟩
  | waits idle stack child => exact .inl ⟨by simp [World.charges, children, stack, child], fate_idle idle⟩

theorem Attends.balance (h : v.Attends t fs p) :
    (v.charges t).length + v.fate.countP Fate.ends = (children fs).length + 1 ∧ v.fate.count .begun = 0 := by
  have ends := h.fate_ends
  refine ⟨?_, List.count_eq_zero.2 fun mem => by cases ends _ mem⟩
  rw [List.countP_eq_length.2 ends]
  rcases h.charges with ⟨charges, fate⟩ | ⟨charges, fate⟩
  · simp [charges, fate]
  · rw [charges, fate]

/-! ### One step -/

theorem Acted.idle {i : Nat} {y : Update} {todo : List Action} {l : Landing} (h : Acted i y todo fs l) :
    children l.frames = children fs := by
  cases h <;> rfl

/-- A turn that is not about a compiler leaves the frames of compilers alone. -/
theorem Turn.idle {l : Landing} (h : Turn w fs s l) (other : ∀ text, s ≠ .start (.compile text))
    (plain : s.IsEnd → ∀ f rest, fs = f :: rest → f.runs = false) :
    children l.frames = children fs := by
  cases h with
  | done | untold | failed | stopped => rfl
  | begins h => exact h.idle fun text eq => other text (by rw [eq])
  | opens _ h => cases h <;> rfl
  | waits _ h => cases h <;> rfl
  | @pops f rest _ _ _ ends => exact (List.filterMap_cons_none (by simpa [Frame.runs] using plain ends f rest rfl)).symm
  | told _ _ h =>
    cases h with
    | script _ _ acted => exact acted.idle
    | _ => rfl
  | acted h => exact h.idle
  | ran | late | killed | reaped => cases plain trivial _ _ rfl
  | waited ends | lost ends => cases plain ends _ _ rfl
  | hurried | heeded | unreaped => cases plain trivial _ _ rfl
  | killedNow runs =>
    rcases runs with rfl | ⟨why, rfl⟩
    · cases plain trivial _ _ rfl
    · cases plain trivial _ _ rfl
  | faulted runs =>
    rcases runs with ⟨p, rfl | ⟨u, rfl⟩ | ⟨why, rfl | rfl⟩⟩
    all_goals cases plain trivial _ _ rfl

theorem Next.idle {recs : List Slot} {l : Landing} (h : Next w t fs s l recs)
    (other : ∀ text, s ≠ .start (.compile text)) (plain : s.IsEnd → ∀ f rest, fs = f :: rest → f.runs = false) :
    children l.frames = children fs := by
  cases h with
  | turn _ h => exact h.idle other plain
  | closes h => cases h <;> rfl
  | rests h =>
    rcases h with rfl | ⟨n, rfl⟩
    · rfl
    · rfl
  | quieted h =>
    rcases h with ⟨-, rfl⟩ | ⟨-, rfl | rfl⟩
    all_goals rfl
  | called h =>
    rcases h with ⟨-, rfl⟩ | ⟨-, rfl⟩
    all_goals rfl
  | breaks h =>
    rcases h with rfl | rfl
    · rfl
    · rfl
  | edits | misnamed | abandons | leaves | settles | drops | lets => rfl

theorem beginCompile_unfound {text : String} (lost : ∀ exe, w.finder.answer ≠ .ok (some exe)) :
    ∃ s, (w.beginCompile t fs text).current = some (t, fs, s) := by
  have finder := finder_noteAll w w.finder.notes
  unfold beginCompile
  dsimp only
  rw [finder]
  cases found : w.finder.answer with
  | error f => exact ⟨_, rfl⟩
  | ok exe =>
    cases exe with
    | none => exact ⟨_, rfl⟩
    | some exe => exact absurd found (lost exe)

theorem beginCompile_found {exe text : String} (found : w.finder.answer = .ok (some exe)) :
    w.beginCompile t fs text = (w.noteAll w.finder.notes).invoke t fs (some exe) text := by
  have finder := finder_noteAll w w.finder.notes
  unfold beginCompile
  dsimp only
  rw [finder, found]

theorem invoke_unwritten {exe text : String} {f : SetupFault} (fault : (w.setup.child text).writeFault = some f) :
    ∃ s, (w.invoke t fs (some exe) text).current = some (t, fs, s) := by
  have wrote : ((w.count "compile.started").setup.child text).writeFault = some f := fault
  unfold invoke
  dsimp only
  rw [wrote]
  cases f with
  | refused m => exact ⟨_, rfl⟩
  | crashed name m => exact ⟨_, rfl⟩

/-- A compile that begins is without a compiler, or is over since its source could not be written, or has
its task attend to one. -/
inductive Engages (w : World) (t : TaskId) (fs : List Frame) (text : String) : Prop
  | lost {s : Signal} (unfound : ∀ exe, w.finder.answer ≠ .ok (some exe)) (now : w.tick.current = some (t, fs, s))
  | unwritten {exe : String} {f : SetupFault} {s : Signal} (found : w.finder.answer = .ok (some exe))
      (fault : (w.setup.child text).writeFault = some f) (now : w.tick.current = some (t, fs, s))
  | begun {exe : String} (found : w.finder.answer = .ok (some exe))
      (written : (w.setup.child text).writeFault = none) (attends : w.tick.Attends t fs w.processes.length)

theorem beginCompile_engages (there : t < w.tasks.length)
    (running : w.current = some (t, fs, .start (.compile text))) : w.Engages t fs text := by
  have noted := Alike.noteAll w w.finder.notes
  have step : w.tick = w.beginCompile t fs text := tick_running running
  by_cases found : ∃ exe, w.finder.answer = .ok (some exe)
  · obtain ⟨exe, found⟩ := found
    cases wrote : (w.setup.child text).writeFault with
    | some f =>
      obtain ⟨s, now⟩ : ∃ s, ((w.noteAll w.finder.notes).invoke t fs (some exe) text).current = some (t, fs, s) :=
        invoke_unwritten (noted.setup ▸ wrote)
      refine .unwritten (s := s) found wrote ?_
      rw [step, beginCompile_found found]
      exact now
    | none =>
      refine .begun found wrote ?_
      rw [step, beginCompile_found found, ← noted.processes]
      exact attends_invoke (noted.tasks ▸ there) exe (noted.setup ▸ wrote)
  · have unfound : ∀ exe, w.finder.answer ≠ .ok (some exe) := fun exe eq => found ⟨exe, eq⟩
    have now : ∃ s, (w.beginCompile t fs text).current = some (t, fs, s) := beginCompile_unfound unfound
    obtain ⟨s, now⟩ := now
    exact .lost unfound (step ▸ now)

/-- What becomes of compilers as a compile begins. -/
theorem fates_compile (running : w.current = some (t, fs, .start (.compile text))) : w.fates =
    match w.finder.answer with
    | .ok (some _) =>
      .begun :: if (w.setup.child text).writeFault.isSome then [.unwritten] else w.tick.fate
    | _ => [] := by
  unfold fates
  rw [running]

theorem fates_unfound (running : w.current = some (t, fs, .start (.compile text)))
    (unfound : ∀ exe, w.finder.answer ≠ .ok (some exe)) : w.fates = [] := by
  rw [fates_compile running]
  split
  · rename_i exe eq
    exact absurd eq (unfound exe)
  · rfl

/-- What a step of the running task has to do with its processes: nothing that lasts, or it starts one, or it is
about one it has started. -/
inductive Labours (w : World) (t : TaskId) (fs : List Frame) (s : Signal) : Prop
  | idle (charges : w.tick.charges t = children fs) (fates : w.fates = [] ∨ w.fates = [.begun, .unwritten])
  | begun {text : String} (compiles : s = .start (.compile text)) (attends : w.tick.Attends t fs w.processes.length)
      (fates : w.fates = .begun :: w.tick.fate)
  | under {f : Frame} {rest : List Frame} {p : ProcessId} (frames : fs = f :: rest) (child : f.child? = some p)
      (attends : w.tick.Attends t rest p) (fates : w.fates = w.tick.fate)

theorem Flight.labours (h : Flight ms b w) (running : w.current = some (t, fs, s)) : w.Labours t fs s := by
  have there := h.there running
  by_cases compiles : ∃ text, s = .start (.compile text)
  · obtain ⟨text, rfl⟩ := compiles
    cases beginCompile_engages there running with
    | lost unfound now =>
      exact .idle (by rw [charges, stackOf_running now]) (.inl (fates_unfound running unfound))
    | unwritten found fault now =>
      exact .idle (by rw [charges, stackOf_running now]) (.inr (by simp [fates_compile running, found, fault]))
    | begun found written attends => exact .begun rfl attends (by simp [fates_compile running, found, written])
  by_cases atWork : ∃ f rest p, fs = f :: rest ∧ s.IsEnd ∧ f.child? = some p
  · obtain ⟨f, rest, p, rfl, ends, child⟩ := atWork
    have attends : w.tick.Attends t rest p := by
      rw [tick_running running]
      exact attends_move there child ends
    refine .under rfl child attends ?_
    have runs : f.runs = true := by simp [Frame.runs, child]
    unfold World.fates
    rw [running]
    cases s with
    | start => exact ends.elim
    | value | fault | cancelled => exact if_pos runs
  · have other : ∀ text, s ≠ .start (.compile text) := fun text eq => compiles ⟨text, eq⟩
    have plain : s.IsEnd → ∀ f rest, fs = f :: rest → f.runs = false := by
      intro ends f rest eq
      cases child : f.child? with
      | none => simp [Frame.runs, child]
      | some p => exact absurd ⟨f, rest, p, eq, ends, child⟩ atWork
    obtain ⟨x, l, -, next, -, stack⟩ := h.tick_stack running
    refine .idle (by rw [charges, stack, next.idle other plain]) (.inl ?_)
    unfold World.fates
    rw [running]
    cases s with
    | start op =>
      cases op with
      | compile text => exact absurd rfl (other text)
      | _ => rfl
    | value | fault | cancelled =>
      cases fs with
      | nil => rfl
      | cons f rest => exact if_neg (by simp [plain trivial f rest rfl])

/-- One step: a process that is a charge was one before or has begun, and still is one or has ended. -/
theorem Flight.tick_balance (h : Flight ms b w) (running : w.current = some (t, fs, s)) :
    (w.tick.charges t).length + w.fates.countP Fate.ends = (children fs).length + w.fates.count .begun := by
  cases h.labours running with
  | idle charges fates => rcases fates with fates | fates <;> simp [charges, fates, Fate.ends]
  | begun _ attends fates =>
    obtain ⟨balance, none⟩ := attends.balance
    simp [fates, Fate.ends, none, balance]
  | under frames child attends fates =>
    obtain ⟨balance, none⟩ := attends.balance
    simp [frames, children, fates, none, child, balance]

/-! ### Runs -/

/-- Whatever happens, a compiler at work was at work before or has begun, and still is at work or has ended. -/
theorem Flight.apply_balance (h : Flight ms b w) {i : Input} (allowed : i.IsPublic) :
    (w.apply i).engaged + (w.fated i).countP Fate.ends =
      w.engaged + (w.fated i).count .begun := by
  have longer := h.apply_tasks allowed
  -- counted over the tasks there are after the step, those that are new have no frames before it
  have before : w.engaged = ∑ u ∈ Finset.range (w.apply i).tasks.length, (w.charges u).length := by
    refine Finset.sum_subset (Finset.range_subset_range.2 longer) fun u _ new => ?_
    rw [charges, h.stackOf_missing (by simpa using new)]
    rfl
  by_cases steps : ∃ t, w.Steps i t
  · obtain ⟨t, rfl, fs, s, running⟩ := steps
    have mem : t ∈ Finset.range w.tick.tasks.length := Finset.mem_range.2 (Nat.lt_of_lt_of_le (h.there running) longer)
    have others : ∑ u ∈ (Finset.range w.tick.tasks.length).erase t, (w.tick.charges u).length =
        ∑ u ∈ (Finset.range w.tick.tasks.length).erase t, (w.charges u).length := by
      refine Finset.sum_congr rfl fun u other => ?_
      rw [charges, charges, show w.tick.stackOf u = w.stackOf u from h.apply_stack (i := .tick) trivial fun steps => ?_]
      obtain ⟨-, fs', s', running'⟩ := steps
      cases running.symm.trans running'
      exact absurd rfl (Finset.ne_of_mem_erase other)
    have own := h.tick_balance running
    rw [show children fs = w.charges t by rw [charges, stackOf_running running]] at own
    have fates : w.fated .tick = w.fates := rfl
    have apart (v : World) : (v.charges t).length +
        ∑ u ∈ (Finset.range w.tick.tasks.length).erase t, (v.charges u).length =
          ∑ u ∈ Finset.range w.tick.tasks.length, (v.charges u).length :=
      Finset.add_sum_erase _ (fun u => (v.charges u).length) mem
    have after := apart w.tick
    have former := apart w
    have whole : (w.apply .tick).engaged = ∑ u ∈ Finset.range w.tick.tasks.length, (w.tick.charges u).length := rfl
    have start : w.engaged = ∑ u ∈ Finset.range w.tick.tasks.length, (w.charges u).length := before
    rw [fates, whole, start]
    omega
  · have none : w.fated i = [] := by
      cases i with
      | tick =>
        cases running : w.current with
        | none => simp [fated, World.fates, running]
        | some p => exact absurd ⟨p.1, rfl, p.2.1, p.2.2, running⟩ steps
      | _ => rfl
    have same : (w.apply i).engaged = w.engaged := by
      rw [before]
      exact Finset.sum_congr rfl fun u _ => by rw [charges, charges, h.apply_stack allowed fun step => steps ⟨u, step⟩]
    simp [none, same]

/-- Compilers that have begun are at work or over. -/
theorem run_balance (new : w.IsNew) {inputs : List Input} (allowed : ∀ i ∈ inputs, i.IsPublic) :
    (w.run inputs).engaged + (w.fatesAlong inputs).countP Fate.ends =
      (w.fatesAlong inputs).count .begun := by
  have idle : w.engaged = 0 := by simp [engaged, new.tasks]
  have run : ∀ {v : World} {ms : List Mark} {inputs : List Input}, Flight ms (w.bench none) v →
      (∀ i ∈ inputs, i.IsPublic) → (v.run inputs).engaged + (v.fatesAlong inputs).countP Fate.ends =
        v.engaged + (v.fatesAlong inputs).count .begun := by
    intro v ms inputs flight allowed
    induction inputs generalizing v ms with
    | nil => simp [World.run, fatesAlong]
    | cons i rest ih =>
      have given := allowed i (by simp)
      have later := ih (flight.apply given) fun j mem => allowed j (List.mem_cons_of_mem i mem)
      have now := flight.apply_balance given
      have whole : v.run (i :: rest) = (v.apply i).run rest := rfl
      simp only [fatesAlong, List.countP_append, List.count_append, whole]
      omega
  have balanced := run new.flight allowed
  rwa [idle, Nat.zero_add] at balanced

/-- The counters of compilers show what has become of them. -/
theorem run_fates (new : w.IsNew) (metered : w.metrics = .new) {inputs : List Input}
    (allowed : ∀ i ∈ inputs, i.IsPublic) (kept : .enableMetrics false ∉ inputs) (counts : Counts c) :
    (w.run inputs).metrics.Reads c (((w.fatesAlong inputs).filterMap Fate.counter?).count c) := by
  have scored := run_scored new.sane (by rw [metered]; rfl) allowed kept (c := c) (n := 0) (by rw [metered]; rfl)
  have same : ∀ {v : World} {inputs : List Input}, (v.scoresAlong inputs).count c =
      ((v.fatesAlong inputs).filterMap Fate.counter?).count c := by
    intro v inputs
    induction inputs generalizing v with
    | nil => rfl
    | cons i rest ih =>
      have now : (v.scored i).count c = ((v.fated i).filterMap Fate.counter?).count c := by
        cases i with
        | tick => exact count_scores counts v
        | _ => rfl
      simp only [scoresAlong, fatesAlong, List.count_append, List.filterMap_append, now, ih]
  rwa [same, Nat.zero_add] at scored

/-! ### One compile -/

theorem beginFollow_stack (there : t < w.tasks.length) (fs : List Frame) (p : ProcessId) :
    fs.length ≤ ((w.beginFollow t fs p).stackOf t).length := by
  unfold beginFollow
  split
  · split
    · unfold processExited
      split
      · rw [stackOf_running rfl]
      · rw [stackOf_running rfl]
    · rw [stackOf_sleep there]
      exact Nat.le_succ _
  · rw [stackOf_running rfl]

/-- A step in the course of a compile counts nothing, or the compile is attended to and its outcome counts if
it is known now. -/
theorem Working.scores {S : Except Fault Outcome → Prop} {base : List Frame} (h : w.Working S t base)
    (flight : Flight ms b w) (running : w.current = some (t, fs, s)) (above : base.length < fs.length) :
    (w.scores = w.tick.concluded ∧ ∃ p, w.tick.Attends t base p) ∨
      w.scores = [] ∧ base.length < (w.tick.stackOf t).length := by
  have there := flight.there running
  have step : w.tick = w.move t fs s := tick_running running
  obtain ⟨pre, s', doing, place⟩ := h
  obtain ⟨rfl, rfl⟩ := flight.at_place place running
  have attended : ∀ {f : Frame} {p : ProcessId}, pre = [f] → f.child? = some p → s'.IsEnd →
      w.scores = w.tick.concluded ∧ ∃ p, w.tick.Attends t base p := by
    rintro f p rfl child ends
    refine ⟨?_, p, step ▸ attends_move there child ends⟩
    unfold World.scores
    rw [running]
    cases s' with
    | start => exact ends.elim
    | value | fault | cancelled => cases f <;> first | rfl | cases child
  cases doing with
  | came | cancelled => exact absurd above (Nat.lt_irrefl _)
  | @followed p =>
    refine .inr ⟨by simp [World.scores, running, scoresOf], ?_⟩
    rw [step]
    exact Nat.lt_of_lt_of_le (Nat.lt_succ_self _) (beginFollow_stack there (.running p :: base) p)
  | running calm => exact .inl (attended rfl rfl calm.ends)
  | @following p _ calm =>
    have none : w.scores = [] := by
      unfold World.scores
      rw [running]
      cases s' with
      | start => exact calm.elim
      | value | fault | cancelled => rfl
    refine .inr ⟨none, ?_⟩
    have now : ∃ x, w.tick.current = some (t, .running p :: base, x) := by
      rw [step]
      cases s' with
      | start | fault => exact calm.elim
      | value =>
        simp only [move, List.cons_append, List.nil_append, proceed, processExited]
        split
        · exact ⟨_, rfl⟩
        · exact ⟨_, rfl⟩
      | cancelled => exact ⟨_, rfl⟩
    obtain ⟨x, now⟩ := now
    rw [stackOf_running now]
    exact Nat.lt_succ_self _
  | limited calm => exact .inl (attended rfl rfl calm.ends)
  | stopping calm => exact .inl (attended rfl rfl calm.ends)
  | reaping calm => exact .inl (attended rfl rfl calm.ends)

/-- What counts in the course of a compile is its outcome, as it comes back. -/
theorem Working.ownScores {S : Except Fault Outcome → Prop} {base : List Frame} {mid : List Input}
    (h : w.Working S t base) (flight : Flight ms b w) (allowed : ∀ i ∈ mid, i.IsPublic)
    (above : base.length < (w.stackOf t).length) (returns : w.ComesBack t base mid s) :
    w.ownScores t mid = s.fate.filterMap Fate.counter? := by
  induction mid generalizing w ms with
  | nil =>
    have back : w.current = some (t, base, s) := returns.2
    rw [stackOf_running back] at above
    exact absurd above (Nat.lt_irrefl _)
  | cons i rest ih =>
    have given := allowed i (by simp)
    have later := flight.apply given
    have away : ∀ s, i = .tick → w.current ≠ some (t, base, s) := by
      rintro s - now
      rw [stackOf_running now] at above
      exact Nat.lt_irrefl _ above
    have work := flight.apply_working h given away
    have goOn : base.length < ((w.apply i).stackOf t).length →
        (w.apply i).ownScores t rest = s.fate.filterMap Fate.counter? := fun longer =>
      ih work later (fun j mem => allowed j (List.mem_cons_of_mem i mem)) longer returns.tail
    by_cases steps : w.Steps i t
    · obtain ⟨rfl, fs, x, running⟩ := steps
      have own : w.ownScored t .tick = w.scores := by simp [ownScored, running]
      rw [stackOf_running running] at above
      rw [World.ownScores, own]
      rcases h.scores flight running above with ⟨scores, p, attends⟩ | ⟨none, longer⟩
      · cases attends with
        | @back s' now =>
          -- the compile is back, so nothing is left of it
          obtain ⟨rfl, rfl⟩ := returns.tail.at_once now
          rw [scores, concluded_eq, fate_running now]
          exact List.append_nil _
        | begins now =>
          have longer : base.length < (w.tick.stackOf t).length := by
            rw [stackOf_running now]
            exact Nat.lt_succ_self _
          rw [scores, concluded_eq, fate_running now]
          exact goOn longer
        | waits idle stack =>
          have longer : base.length < (w.tick.stackOf t).length := by
            rw [stack]
            exact Nat.lt_succ_self _
          rw [scores, concluded_idle idle]
          exact goOn longer
      · rw [none]
        exact goOn longer
    · have none : w.ownScored t i = [] := by
        cases i with
        | tick =>
          simp only [ownScored]
          cases running : w.current with
          | none => rfl
          | some now =>
            obtain ⟨u, fs, x⟩ := now
            dsimp only
            split
            · rename_i same
              exact absurd ⟨rfl, fs, x, same ▸ running⟩ steps
            · rfl
        | _ => rfl
      rw [World.ownScores, none]
      exact goOn (by rwa [flight.apply_stack given steps])

/-- What a compile counts: that a compiler has been started, if there is one, and the outcome, unless the source
could not be written. -/
theorem Flight.compile_scores {base : List Frame} {mid : List Input} (flight : Flight ms b w)
    (running : w.current = some (t, base, .start (.compile text))) (allowed : ∀ i ∈ mid, i.IsPublic)
    (returns : w.tick.ComesBack t base mid s) :
    w.ownScores t (.tick :: mid) = match w.finder.answer with
      | .ok (some _) =>
        .started :: if (w.setup.child text).writeFault.isSome then [] else s.fate.filterMap Fate.counter?
      | _ => [] := by
  have later := flight.apply (i := .tick) trivial
  have work : w.tick.Working (w.Comes text) t base := by
    rw [tick_running running]
    exact working_beginCompile (flight.there running) base text
  have own : w.ownScored t .tick = w.scoresOf (.compile text) := by simp [ownScored, World.scores, running]
  rw [World.ownScores, own]
  -- back at once, the compile leaves nothing to be done
  have done : ∀ {s'}, w.tick.current = some (t, base, s') → mid = [] ∧ s' = s := by
    intro s' now
    cases mid with
    | nil => exact ⟨rfl, by simpa using now.symm.trans returns.2⟩
    | cons j more =>
      have longer := returns.1 0 (Nat.succ_pos _)
      rw [show (w.tick.run ((j :: more).take 0)).stackOf t = base from stackOf_running now] at longer
      exact absurd longer (Nat.lt_irrefl _)
  have lasts : base.length < (w.tick.stackOf t).length →
      (w.apply .tick).ownScores t mid = s.fate.filterMap Fate.counter? :=
    fun above => work.ownScores later allowed above returns
  cases beginCompile_engages (flight.there running) running with
  | lost unfound now =>
    obtain ⟨rfl, rfl⟩ := done now
    cases found : w.finder.answer with
    | error f => simp [scoresOf, found, World.ownScores]
    | ok exe =>
      cases exe with
      | none => simp [scoresOf, found, World.ownScores]
      | some exe => exact absurd found (unfound exe)
  | unwritten found fault now =>
    obtain ⟨rfl, rfl⟩ := done now
    simp [scoresOf, found, fault, World.ownScores]
  | begun found written attends =>
    simp only [scoresOf, found, written, concluded_eq]
    cases attends with
    | back now =>
      obtain ⟨rfl, rfl⟩ := done now
      simp [fate_running now, World.ownScores]
    | begins now =>
      rw [lasts (by rw [stackOf_running now]; exact Nat.lt_succ_self _), fate_running now]
      rfl
    | waits idle stack =>
      rw [lasts (by rw [stack]; exact Nat.lt_succ_self _), fate_idle idle]
      rfl

/-! ### The balance -/

/-- Compilers are over by an outcome of some kind, or lost. -/
theorem countP_ends (l : List Fate) : l.countP Fate.ends = (l.filterMap Fate.counter?).count .succeeded +
    (Failure.all.map fun k => (l.filterMap Fate.counter?).count (.failed k)).sum + l.countP Fate.isLost := by
  simp only [Failure.all, List.map_cons, List.map_nil, List.sum_cons, List.sum_nil]
  induction l with
  | nil => rfl
  | cons x rest ih =>
    rw [List.countP_cons, List.countP_cons, ih, List.filterMap_cons]
    cases x with
    | concluded o =>
      cases o with
      | success story =>
        simp [Fate.ends, Fate.isLost, Fate.counter?, Outcome.counter]
        omega
      | failed k m =>
        cases k <;>
        · simp [Fate.ends, Fate.isLost, Fate.counter?, Outcome.counter]
          omega
    | begun => simp [Fate.ends, Fate.isLost, Fate.counter?]
    | unwritten | broken | cancelled =>
      simp [Fate.ends, Fate.isLost, Fate.counter?]
      omega

theorem count_begun (l : List Fate) : (l.filterMap Fate.counter?).count .started = l.count .begun := by
  induction l with
  | nil => rfl
  | cons x rest ih =>
    rw [List.filterMap_cons]
    cases x with
    | concluded o => cases o <;> simp [Fate.counter?, Outcome.counter, ih]
    | begun | unwritten | broken | cancelled => simp [Fate.counter?, ih]

/-- As long as measurements are taken, the compilers that have been started are those that count as succeeded, those
that count as failed, of whatever kind, those that are at work and those that are lost: whose source could not be
written, whose start crashed, or whose caller was cancelled. A compile that has come back has counted one start, if
there was a compiler to start, and the outcome it came back with, unless its source could not be written. -/
theorem compilers_balance {start : World} (new : start.IsNew) (metered : start.metrics = .new) {inputs : List Input}
    (allowed : ∀ i ∈ inputs, i.IsPublic) (kept : .enableMetrics false ∉ inputs) :
    (∃ (started succeeded : Nat) (failed : Failure → Nat), (start.run inputs).metrics.Reads .started started ∧
      (start.run inputs).metrics.Reads .succeeded succeeded ∧
      (∀ k, (start.run inputs).metrics.Reads (.failed k) (failed k)) ∧
      started = succeeded + (Failure.all.map failed).sum + (start.run inputs).engaged +
        (start.fatesAlong inputs).countP Fate.isLost) ∧
    ∀ {before mid after : List Input} {t : TaskId} {fs : List Frame} {text : String} {s : Signal},
      inputs = before ++ .tick :: (mid ++ after) →
      (start.run before).current = some (t, fs, .start (.compile text)) →
      (start.run before).tick.ComesBack t fs mid s →
      (start.run before).ownScores t (.tick :: mid) = match (start.run before).finder.answer with
        | .ok (some _) => .started ::
          if ((start.run before).setup.child text).writeFault.isSome then [] else s.fate.filterMap Fate.counter?
        | _ => [] := by
  have fates := fun c (counts : Counts c) => run_fates new metered allowed kept counts
  have balanced := run_balance new allowed
  rw [countP_ends] at balanced
  refine ⟨⟨_, _, _, fates _ .started, fates _ .succeeded, fun k => fates _ (.failed k), ?_⟩, ?_⟩
  · rw [count_begun]
    omega
  · intro before mid after t fs text s split running returns
    have given : ∀ i, i ∈ before ∨ i ∈ mid → i.IsPublic := by
      intro i mem
      refine allowed i ?_
      rw [split]
      rcases mem with mem | mem <;> simp [mem]
    have flight := run_flight new fun i mem => given i (.inl mem)
    exact flight.compile_scores running (fun i mem => given i (.inr mem)) returns

/-- A small editor whose disk is full. -/
def fullSample : World :=
  start ⟨0, .whole 0, false, fun _ => ⟨some (.refused "disk full"), none, 0, 0, [], .missing, false, none⟩⟩ ⟨.ok (some "ink"), []⟩ (.new "") []

theorem isNew_fullSample : fullSample.IsNew := isNew_start _ _ _ nofun

def fullCompile : List Input := [.begin (.compile "x"), .tick, .tick]

theorem isPublic_fullCompile : ∀ i ∈ fullCompile, i.IsPublic := by
  intro i mem
  simp only [fullCompile, List.mem_cons, List.not_mem_nil, or_false] at mem
  rcases mem with rfl | rfl | rfl
  · exact .compile _
  · trivial
  · trivial

theorem fullCompile_balance : (∃ (started succeeded : Nat) (failed : Failure → Nat),
      (fullSample.run fullCompile).metrics.Reads .started started ∧
      (fullSample.run fullCompile).metrics.Reads .succeeded succeeded ∧
      (∀ k, (fullSample.run fullCompile).metrics.Reads (.failed k) (failed k)) ∧
      started = succeeded + (Failure.all.map failed).sum + (fullSample.run fullCompile).engaged +
        (fullSample.fatesAlong fullCompile).countP Fate.isLost) ∧
    (fullSample.run [.begin (.compile "x")]).ownScores 0 [.tick] = [.started] := by
  obtain ⟨balance, own⟩ := compilers_balance isNew_fullSample rfl isPublic_fullCompile (by simp [fullCompile])
  refine ⟨balance, ?_⟩
  exact @own [.begin (.compile "x")] [] [.tick] 0 [] "x"
    (.value (.outcome (.failed .ioError (writeFailedMessage "disk full")))) rfl rfl ⟨nofun, rfl⟩

/-- A source that cannot be written counts as started and as nothing else, though the compile has come back with
its failure, nothing is at work and nobody was cancelled. -/
theorem unwritten_uncounted :
    (fullSample.run fullCompile).resultOf 0 =
      some (.value (.outcome (.failed .ioError (writeFailedMessage "disk full")))) ∧
    (fullSample.run fullCompile).metrics.Reads .started 1 ∧
    (fullSample.run fullCompile).metrics.Reads .succeeded 0 ∧
    (∀ k, (fullSample.run fullCompile).metrics.Reads (.failed k) 0) ∧
    (fullSample.run fullCompile).engaged = 0 ∧ .cancelled ∉ fullSample.fatesAlong fullCompile := by
  refine ⟨rfl, rfl, rfl, fun k => ?_, by decide, by decide⟩
  cases k <;> rfl

end World
end InkPreview.Live
