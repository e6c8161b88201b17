import InkPreview.Proofs.Live.Barrier
import InkPreview.Proofs.Live.Stacks
/-!
Waiting for a document to be idle. A wait looks up the slot of its document once, and goes on only when all
tasks of that slot have ended; so it is a barrier for the document unless the document has been closed
meanwhile. Main statement: `wait_is_barrier`.
-/
namespace InkPreview.Live
namespace World

/-- A task of the document that has not ended. -/
def Outstanding (w : World) (doc : DocId) (u : TaskId) : Prop :=
  ∃ s, w.slotOf? doc = some s ∧ u ∈ w.tasksOf s ∧ w.hasEnded u = false

/-- Where a wait for the tasks of a slot stands. -/
def Looks (s : SlotId) (pre : List Frame) (x : Signal) : Prop := pre = [.idling s] ∧ x.IsEnd

section
variable {ms : List Mark} {b : Bench} {w v : World} {t u : TaskId} {fs : List Frame} {s : SlotId} {doc : DocId}

/-- A look at the tasks of a slot ends the wait if all of them have ended, or goes on with it. -/
theorem awaitIdle_cases (w : World) (t : TaskId) (fs : List Frame) (s : SlotId) :
    w.awaitIdle t fs s = w.ret t fs .unit ∧ (∀ u ∈ w.tasksOf s, w.hasEnded u = true) ∨
      ∃ (x : World) (g : GroupId), w.awaitIdle t fs s = x.park t (.idling s :: fs) (.group g) ∧
        x.tasks.length = w.tasks.length := by
  unfold awaitIdle
  dsimp only
  split
  · rename_i none
    refine .inl ⟨rfl, fun u mem => ?_⟩
    have unlisted := List.filter_eq_nil_iff.1 (List.isEmpty_iff.1 none) u mem
    simpa using unlisted
  · rename_i some
    obtain ⟨ks, js, eq, length, -⟩ :=
      enroll_eq w t ((w.tasksOf s).filter fun k => !w.hasEnded k)
    unfold World.gather
    rw [if_neg some]
    refine .inr ⟨_, w.groups.length, rfl, ?_⟩
    have length' := congrArg (·.tasks.length) eq
    exact length'.trans length

/-- A wait that has looked and found tasks at work waits for them. -/
theorem looks_park {x : World} {g : GroupId} (there : t < x.tasks.length) :
    (x.park t (.idling s :: fs) (.group g)).Sits (Looks s) t fs :=
  sits_land (l := .park (.idling s :: fs) (.group g)) ⟨[.idling s], by simp, rfl, fun _ calm => ⟨rfl, calm.ends⟩⟩ there

/-- When a wait comes back with a value, no task of the slot is at work. -/
theorem Flight.looked_ended (h : Flight ms b w) (sits : w.Sits (Looks s) t fs) {inputs : List Input}
    (allowed : ∀ i ∈ inputs, i.IsPublic) {r : Value} (returns : w.Returns t fs inputs r) :
    ∀ u ∈ (w.run inputs).tasksOf s, (w.run inputs).hasEnded u = true := by
  induction inputs generalizing ms w with
  | nil =>
    obtain ⟨pre, same, rfl, -⟩ := h.sits_running sits returns.2
    exact absurd (congrArg List.length same) (by simp)
  | cons i rest ih =>
    have next := h.apply (allowed i (by simp))
    have onward : (w.apply i).Sits (Looks s) t fs → ∀ u ∈ (w.run (i :: rest)).tasksOf s,
        (w.run (i :: rest)).hasEnded u = true :=
      fun sits => ih next sits (fun j mem => allowed j (List.mem_cons_of_mem i mem)) returns.tail
    -- The wait is over once the frames below go on: nothing is left of the run then.
    have last : ∀ x, (w.apply i).current = some (t, fs, x) → rest = [] ∧ x = .value r := by
      intro x popped
      cases rest with
      | nil => exact ⟨rfl, by simpa using congrArg (Option.map (·.2.2)) (popped.symm.trans returns.2)⟩
      | cons j rest =>
        have more : fs.length < ((w.run [i]).stackOf t).length := returns.1 1 (by simp)
        rw [show (w.run [i]).stackOf t = fs from stackOf_running popped] at more
        exact absurd more (Nat.lt_irrefl _)
    by_cases steps : w.Steps i t
    · obtain ⟨rfl, fs', x, running⟩ := steps
      obtain ⟨pre, rfl, rfl, ends⟩ := h.sits_running sits running
      have step : w.apply .tick = w.move t (.idling s :: fs) x := tick_running running
      cases x with
      | start op => exact ends.elim
      | fault f =>
        obtain ⟨-, same⟩ := last (.fault f) (by rw [step]; rfl)
        cases same
      | cancelled =>
        obtain ⟨-, same⟩ := last .cancelled (by rw [step]; rfl)
        cases same
      | value v =>
        have looks : w.apply .tick = w.awaitIdle t fs s := step
        rcases awaitIdle_cases w t fs s with ⟨idle, ended⟩ | ⟨x, g, waits, length⟩
        · obtain ⟨rfl, -⟩ := last (.value .unit) (by rw [looks, idle]; rfl)
          show ∀ u ∈ (w.apply .tick).tasksOf s, (w.apply .tick).hasEnded u = true
          rw [looks, idle]
          exact ended
        · refine onward ?_
          rw [looks, waits]
          exact looks_park (length ▸ h.there running)
    · refine onward (h.apply_sits (allowed i (by simp)) sits ?_ fun pre x tick _ running => ?_)
      · rintro pre x x' ⟨rfl, -⟩ - - calm
        exact ⟨rfl, calm.ends⟩
      · exact absurd ⟨tick, _, _, running⟩ steps

/-- A wait begins with a look at the slot that is registered under its document. -/
theorem tick_waitIdle (running : w.current = some (t, fs, .start (.waitIdle doc))) :
    w.tick = (w.slotOf? doc).elim (w.ret t fs .unit) (w.awaitIdle t fs) := by
  rw [tick_running running]
  show w.beginWaitIdle t fs doc = _
  unfold beginWaitIdle
  cases w.slotOf? doc with
  | none => rfl
  | some s => rfl

/-- After a wait for a document has begun, another slot than the one it looked up is registered under the
document only if that one has been shut. -/
theorem Sane.replaced (h : v.Sane) (ages : Ages w.seats v.seats) {s' : SlotId} (registered : w.slotOf? doc = some s)
    (now : v.slotOf? doc = some s') (other : s' ≠ s) : v.IsShut s := by
  obtain ⟨a, at_slot, -, same⟩ := slotOf?_seat registered
  obtain ⟨c, at_slot', doc', -, -⟩ := ages s a at_slot
  refine ⟨c, at_slot', ?_⟩
  cases isOpen : c.isOpen with
  | false => rfl
  | true =>
    have still := slotOf?_eq h.distinct at_slot' isOpen (doc' ▸ same)
    exact absurd (Option.some.inj (now.symm.trans still)) other

/-- After every run: when a wait for a document returns, every task has ended that has ever worked for the slot
that was registered under the document when the wait began. So no task of the document is outstanding then,
unless that slot has been shut meanwhile. -/
theorem wait_is_barrier {start : World} (new : start.IsNew) {before : List Input}
    (allowed : ∀ i ∈ before, i.IsPublic)
    (running : (start.run before).current = some (t, fs, .start (.waitIdle doc)))
    {during : List Input} (allowed' : ∀ i ∈ during, i.IsPublic) {r : Value}
    (returns : (start.run before).tick.Returns t fs during r) :
    (∀ s, (start.run before).slotOf? doc = some s → ∀ u, Works (start.marksAlong (before ++ .tick :: during)) s u →
      (start.run (before ++ .tick :: during)).hasEnded u = true) ∧
    ∀ u, (start.run (before ++ .tick :: during)).Outstanding doc u →
      ∃ s, (start.run before).slotOf? doc = some s ∧ (start.run (before ++ .tick :: during)).IsShut s := by
  have whole : ∀ i ∈ before ++ .tick :: during, i.IsPublic := by
    intro i mem
    rcases List.mem_append.1 mem with first | later
    · exact allowed i first
    · rcases List.mem_cons.1 later with rfl | later
      · trivial
      · exact allowed' i later
  have flight := run_flight new allowed
  have roster := run_roster new whole
  rw [show start.run (before ++ .tick :: during) = (start.run before).tick.run during from run_append _ _ _] at *
  generalize start.run before = w at *
  have next : Flight _ _ w.tick := flight.apply (i := .tick) trivial
  have looked := tick_waitIdle running
  -- A wait that finds its document closed, or all tasks ended, returns in its first step.
  have atOnce : w.tick = w.ret t fs .unit → during = [] := by
    intro popped
    cases during with
    | nil => rfl
    | cons j rest =>
      have more : fs.length < (w.tick.stackOf t).length := returns.1 0 (by simp)
      rw [show w.tick.stackOf t = fs from stackOf_running (by rw [popped]; rfl)] at more
      exact absurd more (Nat.lt_irrefl _)
  have ended : ∀ s, w.slotOf? doc = some s → ∀ u ∈ (w.tick.run during).tasksOf s,
      (w.tick.run during).hasEnded u = true := by
    intro s registered
    simp only [registered, Option.elim] at looked
    rcases awaitIdle_cases w t fs s with ⟨idle, all⟩ | ⟨x, g, waits, length⟩
    · obtain rfl := atOnce (looked.trans idle)
      show ∀ u ∈ w.tick.tasksOf s, w.tick.hasEnded u = true
      rw [looked, idle]
      exact all
    · refine next.looked_ended ?_ allowed' returns
      rw [looked, waits]
      exact looks_park (length ▸ flight.there running)
  refine ⟨fun s registered u works => (roster s u works).elim (ended s registered u) id, ?_⟩
  rintro u ⟨s', registered', mem, working⟩
  cases registered : w.slotOf? doc with
  | none =>
    simp only [registered, Option.elim] at looked
    obtain rfl := atOnce looked
    have still : w.tick.slotOf? doc = none := by rw [looked]; exact registered
    cases still.symm.trans registered'
  | some s =>
    refine ⟨s, rfl, ?_⟩
    obtain ⟨sane, ages⟩ := next.sane.run allowed'
    refine sane.replaced (flight.sane.tick.2.trans ages) registered registered' ?_
    rintro rfl
    rw [ended s' registered u mem] at working
    cases working

end

/-- A document is edited, and somebody waits for it to be idle. -/
def waiting : List Input := editing "Hi" 11 ++ [.begin (.waitIdle (.name "a"))]

/-- Then it is closed, and edited before the wait goes on. -/
def renewing : List Input := .begin (.close (.name "a")) :: .tick :: editing "Ho" 26

theorem isPublic_waiting : ∀ i ∈ waiting, i.IsPublic := by
  intro i mem
  rcases List.mem_append.1 mem with first | last
  · exact isPublic_editing _ _ i first
  · obtain rfl := List.mem_singleton.1 last
    exact .waitIdle _

theorem isPublic_renewing : ∀ i ∈ renewing, i.IsPublic := by
  intro i mem
  rcases List.mem_cons.1 mem with rfl | later
  · exact .close _
  · rcases List.mem_cons.1 later with rfl | later
    · trivial
    · exact isPublic_editing _ _ i later

/-- The wait returns when the compiler of the first edit has been killed. -/
theorem renewing_returns : (slowSample.run waiting).tick.Returns 3 [] renewing .unit := by
  refine ⟨?_, rfl⟩
  decide

/-- The compiler of the second edit is at work then. -/
theorem wait_leaves_outstanding : (slowSample.run waiting).current = some (3, [], .start (.waitIdle (.name "a"))) ∧
    (slowSample.run waiting).tick.Returns 3 [] renewing .unit ∧
    (slowSample.run (waiting ++ .tick :: renewing)).Outstanding (.name "a") 6 :=
  ⟨rfl, renewing_returns, 1, rfl, by decide, rfl⟩

/-- The task of the first edit has ended, and its slot has been shut. -/
theorem reopened_wait : (slowSample.run (waiting ++ .tick :: renewing)).hasEnded 1 = true ∧
    (slowSample.run (waiting ++ .tick :: renewing)).IsShut 0 := by
  have running : (slowSample.run waiting).current = some (3, [], .start (.waitIdle (.name "a"))) := rfl
  have registered : (slowSample.run waiting).slotOf? (.name "a") = some 0 := rfl
  obtain ⟨ended, shut⟩ :=
    wait_is_barrier isNew_slowSample isPublic_waiting running isPublic_renewing renewing_returns
  have workers : (editsOf (slowSample.marksAlong (waiting ++ .tick :: renewing)) 0).map (·.worker) = [some 1] := rfl
  obtain ⟨e, mem, worker⟩ := List.mem_map.1 (workers ▸ List.mem_singleton_self (some 1))
  obtain ⟨he, at_slot⟩ := mem_editsOf.1 mem
  obtain ⟨s, registered', shut⟩ := shut 6 ⟨1, rfl, by decide, rfl⟩
  obtain rfl := Option.some.inj (registered.symm.trans registered')
  exact ⟨ended 0 registered 1 ⟨e, he, at_slot, worker⟩, shut⟩

end World
end InkPreview.Live
