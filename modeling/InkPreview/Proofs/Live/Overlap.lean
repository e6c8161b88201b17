import InkPreview.Proofs.Live.Custody
/-!
Overlap. A compiler that has been started for a request keeps its task at the lock of the slot until it
is over, so that no two compilers of one slot are alive. The lock goes with the slot: a document that
has been closed may be compiled again while the compiler of its former slot is still alive. Main
statement: `compilers_alone`.
-/
namespace InkPreview.Live
namespace World

/-- The process has neither exited nor been killed. -/
def Lives (w : World) (p : ProcessId) : Prop := w.processes[p]?.map (·.state) = some .alive

/-- The step that is marked as the start of the request's compile has started the process. -/
def Launched (start : World) (inputs : List Input) (p : ProcessId) (r : Request) : Prop :=
  ∃ xs ys time t text, inputs = xs ++ .tick :: ys ∧ (start.run xs).mark? = some (.started time t r text) ∧
    p = (start.run xs).processes.length ∧ p < (start.run xs).tick.processes.length

section
variable {ms : List Mark} {b : Bench} {w : World} {t u : TaskId} {p : ProcessId} {fs : List Frame} {r q : Request}

theorem Lives.owned (h : w.Lives p) : ∃ t, w.Owns t p := by
  obtain ⟨k, found, alive⟩ := Option.map_eq_some_iff.1 h
  exact ⟨k.owner, k, found, rfl, alive⟩

/-- A process that is there and is alive later has been alive all along. -/
theorem Flight.run_owns (h : Flight ms b w) {inputs : List Input} (allowed : ∀ i ∈ inputs, i.IsPublic)
    (there : p < w.processes.length) (owns : (w.run inputs).Owns t p) : w.Owns t p := by
  induction inputs generalizing ms w with
  | nil => exact owns
  | cons i rest ih =>
    have next := ih (h.apply (allowed i (by simp))) (fun j mem => allowed j (List.mem_cons_of_mem i mem))
      (Nat.lt_of_lt_of_le there (h.apply_bred i).1.length) owns
    exact (h.apply_owns next).resolve_right fun starts => Nat.not_lt.2 starts.1 there

/-- A task that guards a process that is alive later has guarded it all along, and still does. -/
theorem Flight.run_guarded (h : Flight ms b w) {inputs : List Input} (allowed : ∀ i ∈ inputs, i.IsPublic)
    (guarded : w.Guarded t p fs) (there : p < w.processes.length) (owns : (w.run inputs).Owns u p) :
    (w.run inputs).Guarded t p fs := by
  induction inputs generalizing ms w with
  | nil => exact guarded
  | cons i rest ih =>
    have next := h.apply (allowed i (by simp))
    have later : ∀ j ∈ rest, j.IsPublic := fun j mem => allowed j (List.mem_cons_of_mem i mem)
    have there' := Nat.lt_of_lt_of_le there (h.apply_bred i).1.length
    have still := h.apply_guarded (allowed i (by simp)) guarded (next.run_owns later there' owns)
    exact ih next later still there' owns

/-- Of the tasks at the lock of one slot there is one, for one request. -/
theorem Flight.holder (h : Flight ms b w) {p q : ProcessId} {fs fs' : List Frame} {r r' : Request}
    (guarded : w.Guarded t p fs) (guarded' : w.Guarded u q fs') (holds : .holding r ∈ fs)
    (holds' : .holding r' ∈ fs') (same : r.slot = r'.slot) : t = u ∧ r = r' := by
  obtain ⟨x, found, guards⟩ := guarded
  obtain ⟨y, found', guards'⟩ := guarded'
  have orderly := h.steady.midst.orderly
  obtain ⟨grip, last, -⟩ := (orderly.stage t x found).holds (guards.below holds)
  obtain ⟨grip', last', -⟩ := (orderly.stage u y found').holds (guards'.below holds')
  obtain rfl := orderly.alone t u x y r.slot found found' grip (same ▸ grip')
  obtain rfl := Option.some.inj (found.symm.trans found')
  exact ⟨rfl, by simpa [last] using last'⟩

/-- A compiler that has been started for a request and is alive has its task at the lock. -/
theorem Launched.held {start : World} (new : start.IsNew) {inputs : List Input}
    (allowed : ∀ i ∈ inputs, i.IsPublic) (launched : start.Launched inputs p r)
    (lives : (start.run inputs).Lives p) : Serves (start.run inputs).seats r.slot r.doc ∧
      ∃ t fs, (start.run inputs).Guarded t p fs ∧ .holding r ∈ fs := by
  obtain ⟨xs, ys, time, t, text, rfl, marked, rfl, started⟩ := launched
  obtain ⟨u, owns⟩ := lives.owned
  have before : ∀ i ∈ xs, i.IsPublic := fun i mem => allowed i (List.mem_append_left _ mem)
  have after : ∀ i ∈ ys, i.IsPublic := fun i mem => allowed i (List.mem_append_right _ (List.mem_cons_of_mem _ mem))
  have flight := run_flight new before
  have split_run : start.run (xs ++ .tick :: ys) = ((start.run xs).tick).run ys := run_append _ _ _
  rw [split_run] at owns ⊢
  generalize start.run xs = w at *
  have next : Flight _ _ w.tick := flight.apply (i := .tick) trivial
  obtain ⟨rfl, fs, running⟩ := mark?_started marked
  have step : w.tick = w.beginCompile t (.holding r :: fs) text := tick_running running
  have served := (flight.at_start marked).2.2.2.2.2.2.2
  have owned := next.run_owns after started owns
  refine ⟨served.mono ?_, t, .holding r :: fs, next.run_guarded after ?_ started owns, by simp⟩
  · obtain ⟨sane, ages⟩ := flight.sane.tick
    exact ages.trans (sane.run after).2
  · rw [step] at next owned ⊢
    refine (beginCompile_guarded (flight.there running) flight.rung next owned ?_).2
    rintro ⟨k, found, -⟩
    exact Nat.lt_irrefl _ (List.getElem?_eq_some_iff.1 found).1

/-- After every run: if two compilers of one document are alive, each started under the lock of its slot
by the task of an edit, then they are for two openings of the document, one of which has been closed. -/
theorem compilers_alone {start : World} (new : start.IsNew) {inputs : List Input}
    (allowed : ∀ i ∈ inputs, i.IsPublic) {p q : ProcessId} {r r' : Request}
    (launched : start.Launched inputs p r) (launched' : start.Launched inputs q r') (same : r.doc = r'.doc)
    (lives : (start.run inputs).Lives p) (lives' : (start.run inputs).Lives q) :
    p = q ∧ r = r' ∨
      r.slot ≠ r'.slot ∧ ((start.run inputs).IsShut r.slot ∨ (start.run inputs).IsShut r'.slot) := by
  obtain ⟨⟨a, at_slot, doc⟩, t, fs, guarded, holds⟩ := launched.held new allowed lives
  obtain ⟨⟨a', at_slot', doc'⟩, u, fs', guarded', holds'⟩ := launched'.held new allowed lives'
  have flight := run_flight new allowed
  generalize start.run inputs = w at *
  by_cases one : r.slot = r'.slot
  · obtain ⟨rfl, rfl⟩ := flight.holder guarded guarded' holds holds' one
    exact .inl ⟨(guarded.unique guarded').1.symm, rfl⟩
  · refine .inr ⟨one, ?_⟩
    cases isOpen : a.isOpen with
    | false => exact .inl ⟨a, at_slot, isOpen⟩
    | true =>
      cases isOpen' : a'.isOpen with
      | false => exact .inr ⟨a', at_slot', isOpen'⟩
      | true =>
        have both : a.doc.same a'.doc := by simp [DocId.same, doc, doc', same]
        exact absurd (flight.sane.distinct _ _ a a' at_slot at_slot' isOpen isOpen' both) one

end

/-- The small editor with a compiler that takes its time, for which there is a limit. -/
def slowSample : World :=
  start ⟨0, .whole 5, false, fun _ => ⟨none, none, 1000, 0, [], .missing, false, none⟩⟩ ⟨.ok (some "ink"), []⟩ (.new "") []

theorem isNew_slowSample : slowSample.IsNew := isNew_start _ _ _ nofun

/-- A document is closed while it is compiled, and edited before the compiler has been killed. -/
def hasty : List Input :=
  editing "Hi" 11 ++ .begin (.close (.name "a")) :: .tick :: editing "Ho" 14

theorem isPublic_hasty : ∀ i ∈ hasty, i.IsPublic := by
  intro i mem
  rcases List.mem_append.1 mem with first | later
  · exact isPublic_editing _ _ i first
  · rcases List.mem_cons.1 later with rfl | later
    · exact .close _
    · rcases List.mem_cons.1 later with rfl | later
      · trivial
      · exact isPublic_editing _ _ i later

/-- Two compilers of the document are alive then. -/
theorem hasty_launches : slowSample.Launched hasty 0 ⟨0, "a", 1, "Hi"⟩ ∧
    slowSample.Launched hasty 1 ⟨1, "a", 1, "Ho"⟩ ∧
    (slowSample.run hasty).Lives 0 ∧ (slowSample.run hasty).Lives 1 := by
  refine ⟨⟨editing "Hi" 8, hasty.drop 10, 0, 1, "Hi", rfl, rfl, rfl, by decide⟩,
    ⟨hasty.take 28, [], 0, 5, "Ho", rfl, rfl, rfl, by decide⟩, rfl, rfl⟩

/-- The first opening has been closed. -/
theorem hasty_shut : (slowSample.run hasty).IsShut 0 ∨ (slowSample.run hasty).IsShut 1 := by
  obtain ⟨first, second, lives, lives'⟩ := hasty_launches
  rcases compilers_alone isNew_slowSample isPublic_hasty first second rfl lives lives' with ⟨same, -⟩ | ⟨-, shut⟩
  · cases same
  · exact shut

/-- A document has no single compiler that is alive. -/
theorem compilers_overlap : ¬ ∀ p q r r', slowSample.Launched hasty p r → slowSample.Launched hasty q r' →
    r.doc = r'.doc → (slowSample.run hasty).Lives p → (slowSample.run hasty).Lives q → p = q := by
  intro single
  obtain ⟨first, second, lives, lives'⟩ := hasty_launches
  cases single 0 1 _ _ first second rfl lives lives'

end World
end InkPreview.Live
