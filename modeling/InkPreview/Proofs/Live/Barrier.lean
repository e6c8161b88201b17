import InkPreview.Proofs.Live.Absence
import InkPreview.Proofs.Live.Interruption
import InkPreview.Proofs.Live.Overlap
/-!
Closing as a barrier. When the closing of a document returns, nothing is left at work for the slot it
has taken away, and nothing will be. Main statement: `close_is_barrier`.
-/
namespace InkPreview.Live
namespace World

/-- The task has ended, does not run, and has no process that is alive. -/
structure Gone (w : World) (u : TaskId) : Prop where
  ended : w.hasEnded u = true
  still : ∀ fs s, w.current ≠ some (u, fs, s)
  disowned : ∀ p, ¬ w.Owns u p

section
variable {ms : List Mark} {b : Bench} {w : World} {t u : TaskId} {fs : List Frame} {s : SlotId}

/-! ### Shut slots -/

/-- An edit opens the slot it is for. -/
theorem Sane.edit_unshut (h : w.Sane) {e : Edit} (marked : w.mark? = some (.edited e)) :
    ¬ w.tick.IsShut e.slot := by
  obtain ⟨t, fs, doc, text, running, rfl⟩ := mark?_edited marked
  obtain ⟨-, -, a, at_slot, isOpen, -⟩ := bumped_seats h.distinct doc text
  rw [← seats_beginEdit t fs doc text] at at_slot
  rintro ⟨c, found, shut⟩
  rw [tick_running running] at found
  obtain rfl := Option.some.inj (found.symm.trans at_slot)
  simp [shut] at isOpen

/-- No edit is for a slot that has been shut. -/
theorem Sane.shut_edits (h : w.Sane) (shut : w.IsShut s) {inputs : List Input}
    (allowed : ∀ i ∈ inputs, i.IsPublic) : ∀ e, .edited e ∈ w.marksAlong inputs → e.slot ≠ s := by
  induction inputs generalizing w with
  | nil => exact fun e => nofun
  | cons i rest ih =>
    have step := h.apply (allowed i (by simp))
    have shut' := shut.mono step.ages
    intro e he
    rcases List.mem_append.1 he with now | later
    · cases i with
      | tick =>
        rintro rfl
        exact h.edit_unshut (by simpa [marks] using now) shut'
      | _ => cases now
    · exact ih step.sane shut' (fun j mem => allowed j (List.mem_cons_of_mem i mem)) e later

/-- Nobody is called with an update of a slot that has been shut. -/
theorem Sane.shut_uncalled (h : w.Sane) (shut : w.IsShut s) {inputs : List Input}
    (allowed : ∀ i ∈ inputs, i.IsPublic) {j : Nat} {x : Update}
    (marked : (w.run inputs).mark? = some (.called j x)) : x.slot ≠ s := by
  obtain ⟨sane, ages⟩ := h.run allowed
  rintro rfl
  exact (sane.call_fresh marked).not_shut (shut.mono ages)

/-- A closing shuts the slot it takes away. -/
theorem Sane.closed_shut (h : w.Sane) {doc : DocId} (running : w.current = some (t, fs, .start (.close doc)))
    (registered : w.slotOf? doc = some s) : w.tick.IsShut s := by
  obtain ⟨a, at_slot, -, same⟩ := slotOf?_seat registered
  exact h.close_shuts running at_slot same

/-! ### The tasks of the slot -/

theorem Works.append (h : Works ms s u) (more : List Mark) : Works (ms ++ more) s u := by
  obtain ⟨e, he, rest⟩ := h
  exact ⟨e, List.mem_append_left _ he, rest⟩

theorem Flight.worker_there (h : Flight ms b w) (works : Works ms s u) : u < w.tasks.length := by
  obtain ⟨e, he, -, worker⟩ := works
  exact h.booked.known.workers e u he worker

/-- Nobody works for the slot who did not when the closing began. -/
theorem Flight.works_before (h : Flight ms b w) {doc : DocId}
    (running : w.current = some (t, fs, .start (.close doc))) (registered : w.slotOf? doc = some s)
    {inputs : List Input} (allowed : ∀ i ∈ inputs, i.IsPublic)
    (works : Works (ms ++ w.marksAlong (.tick :: inputs)) s u) : Works ms s u := by
  obtain ⟨e, he, at_s, worker⟩ := works
  rcases List.mem_append.1 he with old | new
  · exact ⟨e, old, at_s, worker⟩
  · have shut := h.sane.closed_shut running registered
    have later : .edited e ∈ w.tick.marksAlong inputs := by
      refine (List.mem_append.1 new).resolve_left fun now => ?_
      obtain ⟨t', fs', doc', text, running', -⟩ := mark?_edited (w := w) (e := e) (by simpa [marks] using now)
      cases running.symm.trans running'
    exact absurd at_s (h.sane.tick.1.shut_edits shut allowed e later)

theorem Flight.run_ended (h : Flight ms b w) (there : u < w.tasks.length) (ceased : w.hasEnded u = true)
    {after : List Input} (allowed : ∀ i ∈ after, i.IsPublic) : (w.run after).hasEnded u = true := by
  obtain ⟨⟨k, found, ended⟩, -⟩ := h.ended_forever there ceased allowed
  exact (hasEnded_iff (List.getElem?_eq_some_iff.1 found).1).2 ⟨k, found, ended⟩

/-- What has ended is gone. -/
theorem Flight.gone (h : Flight ms b w) (custody : w.Custody) (there : u < w.tasks.length)
    (ceased : w.hasEnded u = true) : w.Gone u := by
  obtain ⟨k, found, ended⟩ := (hasEnded_iff there).1 ceased
  exact ⟨ceased, h.not_current found (by simp [ended]), h.ended_owns custody found ended⟩

/-- A closing that returns has found an end to cancelling the slot's tasks. -/
theorem Returns.closes {doc : DocId} (running : w.current = some (t, fs, .start (.close doc)))
    (registered : w.slotOf? doc = some s) (busy : w.tasksOf s ≠ []) {during : List Input} {r : Value}
    (returns : w.tick.Returns t fs during r) : (w.closingReach doc s).1 ≠ .endless := by
  intro endless
  have failed : w.tick.current = some (t, fs, .fault .nestedTooDeep) := by
    rw [tick_running running, show w.move t fs _ = w.beginClose t fs doc from rfl,
      beginClose_tasks t fs registered busy]
    dsimp only
    rw [if_pos endless]
    rfl
  cases during with
  | nil => cases failed.symm.trans returns.2
  | cons i rest =>
    have longer := returns.1 0 (Nat.succ_pos _)
    rw [List.take_zero, show (w.tick.run []).stackOf t = fs from stackOf_running failed] at longer
    exact Nat.lt_irrefl _ longer

/-- When a closing returns, all tasks have ended that have worked for the slot it has taken away. -/
theorem Flight.close_ended (h : Flight ms b w) (balanced : w.ledger.Balanced) (roster : Roster ms w)
    {doc : DocId} (running : w.current = some (t, fs, .start (.close doc))) (registered : w.slotOf? doc = some s)
    {during : List Input} (allowed : ∀ i ∈ during, i.IsPublic) {r : Value}
    (returns : w.tick.Returns t fs during r) (works : Works ms s u) :
    (w.tick.run during).hasEnded u = true := by
  have next : Flight _ _ w.tick := h.apply (i := .tick) trivial
  rcases roster s u works with mem | ceased
  · have busy : w.tasksOf s ≠ [] := List.ne_nil_of_mem mem
    obtain ⟨g, x, gathers, found, members⟩ :=
      h.close_gathers running registered busy (returns.closes running registered busy)
    have balanced' : w.tick.ledger.Balanced := h.apply_balanced balanced .tick
    exact next.gathered_ended balanced' (.inl gathers) found allowed returns u (members ▸ mem)
  · have still : w.tick.hasEnded u = true := h.apply_ended (h.worker_there works) ceased (i := .tick) trivial
    exact next.run_ended (next.worker_there (works.append _)) still allowed

/-- Who rests and works for a slot is listed there. -/
theorem Flight.resting_listed (h : Flight ms b w) (roster : Roster ms w) (works : Works ms s u) {q : Post}
    (found : w.post? u = some q) (resting : q.IsResting) : u ∈ w.tasksOf s := by
  have awake : q.wait ≠ .ended := by
    intro ceased
    rcases (h.steady.midst.orderly.stage u q found).resting resting with ⟨-, alarm | ⟨-, up⟩⟩ | ⟨-, -, up⟩
    · cases ceased.symm.trans alarm
    · rcases up with turn | runs
      · cases ceased.symm.trans turn
      · cases ceased.symm.trans runs
    · rcases up with turn | runs
      · cases ceased.symm.trans turn
      · cases ceased.symm.trans runs
  refine (roster s u works).resolve_right fun ceased => ?_
  rw [hasEnded_eq, h.post_out found awake] at ceased
  cases ceased

/-- After every run: when the closing of a document returns, every task that has ever worked for the
slot it has taken away has ended, never runs again, and has no process that is alive; from the first
step of the closing on the document has no preview until it is edited again, and nobody is called with
an update of the slot; and the tasks of the slot that were waiting for quiet when the closing began
never start a process. -/
theorem close_is_barrier {start : World} (new : start.IsNew) {before : List Input}
    (allowed : ∀ i ∈ before, i.IsPublic) {name : String}
    (running : (start.run before).current = some (t, fs, .start (.close (.name name))))
    (registered : (start.run before).slotOf? (.name name) = some s)
    {during : List Input} (allowed' : ∀ i ∈ during, i.IsPublic) {r : Value}
    (returns : (start.run before).tick.Returns t fs during r) :
    (∀ u, Works (start.marksAlong (before ++ .tick :: during)) s u →
      ∀ after : List Input, (∀ i ∈ after, i.IsPublic) → (start.run (before ++ .tick :: during ++ after)).Gone u) ∧
    ∀ later : List Input, (∀ i ∈ later, i.IsPublic) →
      ((∀ e, .edited e ∈ (start.run before).tick.marksAlong later → e.doc ≠ .name name) →
        (start.run (before ++ .tick :: later)).gallery.previews.find? name = none) ∧
      (∀ i u, (start.run (before ++ .tick :: later)).mark? = some (.called i u) → u.slot ≠ s) ∧
      ∀ u q, Works (start.marksAlong before) s u → (start.run before).post? u = some q → q.IsResting →
        ∀ k ∈ (start.run (before ++ .tick :: later)).processes, k.owner ≠ u := by
  have flight := run_flight new allowed
  have balanced := run_balanced new allowed
  have roster := run_roster new allowed
  have launchers := run_launchers new allowed
  have onward : ∀ inputs, start.run (before ++ .tick :: inputs) = (start.run before).tick.run inputs :=
    fun inputs => run_append _ _ _
  have custody : ∀ inputs : List Input, (∀ i ∈ inputs, i.IsPublic) → ((start.run before).tick.run inputs).Custody := by
    intro inputs given
    rw [← onward]
    refine run_custody new fun i mem => ?_
    rcases List.mem_append.1 mem with first | later
    · exact allowed i first
    · rcases List.mem_cons.1 later with rfl | later
      · trivial
      · exact given i later
  have marks : start.marksAlong (before ++ .tick :: during) =
      start.marksAlong before ++ (start.run before).marksAlong (.tick :: during) := marksAlong_append _ _ _
  rw [marks]
  simp only [onward, List.append_assoc, List.cons_append]
  generalize start.run before = w at *
  generalize start.marksAlong before = ms at *
  have next : Flight _ _ w.tick := flight.apply (i := .tick) trivial
  have shut := flight.sane.closed_shut running registered
  refine ⟨fun u works after given => ?_, fun later given => ⟨fun unedited => ?_, fun i x marked => ?_, ?_⟩⟩
  · have both : ∀ i ∈ during ++ after, i.IsPublic := fun i mem => (List.mem_append.1 mem).elim (allowed' i) (given i)
    have worked := flight.works_before running registered allowed' works
    have ended := flight.close_ended balanced roster running registered allowed' returns worked
    have returned := next.run allowed'
    have ceased := returned.run_ended (returned.worker_there ((worked.append _).append _)) ended given
    rw [← run_append] at ceased
    have flight' := next.run both
    exact flight'.gone (custody _ both) (flight'.worker_there ((worked.append _).append _)) ceased
  · exact (next.run_absent (flight.close_absent running) given unedited).unseen
  · exact next.sane.shut_uncalled shut given marked
  · intro u q works found resting
    have listed := flight.resting_listed roster works found resting
    exact flight.interrupted launchers running registered
      (returns.closes running registered (List.ne_nil_of_mem listed)) listed found resting given

end

/-- A document is edited, and closed while it is compiled. -/
def shutting : List Input := editing "Hi" 11 ++ [.begin (.close (.name "a"))]

theorem isPublic_shutting : ∀ i ∈ shutting, i.IsPublic := by
  intro i mem
  rcases List.mem_append.1 mem with first | last
  · exact isPublic_editing _ _ i first
  · obtain rfl := List.mem_singleton.1 last
    exact .close _

/-- The closing returns once the compiler has been killed. -/
theorem shutting_returns :
    (slowSample.run shutting).tick.Returns 3 [] (List.replicate 14 .tick) .unit := by
  refine ⟨?_, rfl⟩
  decide

/-- Nothing is left then of the compile, or of the preview. -/
theorem shutting_leaves_nothing : (slowSample.run (shutting ++ .tick :: List.replicate 14 .tick)).Gone 1 ∧
    (slowSample.run (shutting ++ .tick :: List.replicate 14 .tick)).gallery.previews.find? "a" = none := by
  have ticks : ∀ i ∈ List.replicate 14 Input.tick, i.IsPublic := by
    intro i mem
    rw [List.eq_of_mem_replicate mem]
    trivial
  have running : (slowSample.run shutting).current = some (3, [], .start (.close (.name "a"))) := rfl
  have registered : (slowSample.run shutting).slotOf? (.name "a") = some 0 := rfl
  obtain ⟨gone, later⟩ :=
    close_is_barrier isNew_slowSample isPublic_shutting running registered ticks shutting_returns
  have workers : (editsOf (slowSample.marksAlong (shutting ++ .tick :: List.replicate 14 .tick)) 0).map (·.worker) =
      [some 1] := rfl
  obtain ⟨e, mem, worker⟩ := List.mem_map.1 (workers ▸ List.mem_singleton_self (some 1))
  obtain ⟨he, at_slot⟩ := mem_editsOf.1 mem
  have silent : (slowSample.run shutting).tick.marksAlong (List.replicate 14 .tick) = [] := rfl
  refine ⟨?_, (later _ ticks).1 fun e he => ?_⟩
  · simpa using gone 1 ⟨e, he, at_slot, worker⟩ [] nofun
  · rw [silent] at he
    cases he

end World
end InkPreview.Live
