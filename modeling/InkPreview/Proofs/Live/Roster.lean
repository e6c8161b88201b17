import InkPreview.Proofs.Live.Custody
/-!
Rosters. A slot lists the task of each of its edits until that task has ended; a task that has ended
never runs, and no process is alive for it. Main statements: `run_roster`, `Flight.ended_forever`.
-/
namespace InkPreview.Live

/-- Of what has ended nothing is left to go on with. -/
theorem Stage.ended {ms : List Mark} {b : Bench} {t : TaskId} {p : Post} (h : Stage ms b t p)
    (ceased : p.wait = .ended) : p.frames = [] := by
  have apart : ∀ {wait : Wait}, wait.IsUp → wait ≠ .ended := by
    rintro _ (rfl | rfl)
    · exact nofun
    · exact nofun
  cases h with
  | plain _ _ loose | holding _ _ _ loose => exact absurd ceased loose.1
  | fresh | finished => rfl
  | rested _ _ _ up | dropped up | called _ _ _ up | leaving up => exact absurd ceased (apart up)
  | quiet | queueing | asked => cases ceased

namespace World

/-- The task works for an edit of the slot. -/
def Works (ms : List Mark) (s : SlotId) (u : TaskId) : Prop := ∃ e, .edited e ∈ ms ∧ e.slot = s ∧ e.worker = some u

/-- A task that works for an edit of a slot is listed, or has ended. -/
def Roster (ms : List Mark) (w : World) : Prop :=
  ∀ s u, Works ms s u → u ∈ w.tasksOf s ∨ w.hasEnded u = true

section
variable {ms : List Mark} {b : Bench} {w : World} {u : TaskId} {s : SlotId}

theorem hasEnded_iff (there : u < w.tasks.length) :
    w.hasEnded u = true ↔ ∃ k, w.tasks[u]? = some k ∧ k.wait = .ended := by
  rw [hasEnded, List.getElem?_eq_getElem there]
  simp [Task.ended]

/-- A task that has ended stays so, and never runs. -/
theorem Flight.ended_forever (h : Flight ms b w) (there : u < w.tasks.length) (ceased : w.hasEnded u = true)
    {after : List Input} (allowed : ∀ i ∈ after, i.IsPublic) :
    (∃ k, (w.run after).tasks[u]? = some k ∧ k.wait = .ended) ∧
      ∀ fs x, (w.run after).current ≠ some (u, fs, x) := by
  obtain ⟨k, found, ended⟩ := (hasEnded_iff there).1 ceased
  obtain ⟨⟨k', found', -, wait, -⟩, never⟩ := h.stays_ended found ended allowed
  exact ⟨⟨k', found', wait⟩, never⟩

theorem Flight.apply_ended (h : Flight ms b w) (there : u < w.tasks.length) (ceased : w.hasEnded u = true)
    {i : Input} (allowed : i.IsPublic) : (w.apply i).hasEnded u = true := by
  have only : ∀ j ∈ [i], j.IsPublic := by simpa using allowed
  obtain ⟨⟨k, found, ended⟩, -⟩ := h.ended_forever there ceased only
  exact (hasEnded_iff (List.getElem?_eq_some_iff.1 found).1).2 ⟨k, found, ended⟩

/-- No process is alive for a task that has ended. -/
theorem Flight.ended_owns (h : Flight ms b w) (custody : w.Custody) {k : Task} (found : w.tasks[u]? = some k)
    (ended : k.wait = .ended) (p : ProcessId) : ¬ w.Owns u p := by
  intro owns
  have post : w.post? u = some k.post := by
    rw [post?_other (h.not_current found (by simp [ended])), found, Option.map_some]
  obtain ⟨fs, q, at_u, guards⟩ := custody u p owns
  have empty := (h.steady.midst.orderly.stage u q at_u).ended
  obtain rfl := Option.some.inj (post.symm.trans at_u)
  have none : k.frames = [] := empty ended
  generalize post' : k.post = q at guards
  have frames : k.frames = q.frames := congrArg Post.frames post'
  rw [none] at frames
  cases guards <;> cases frames

/-! ### Lists -/

theorem tasksOf_records {v : World} (h : v.records = w.records) (s : SlotId) : v.tasksOf s = w.tasksOf s := by
  rw [← listed_records, h, listed_records]

/-- A slot strikes nobody off its list who has not ended. -/
theorem Flight.apply_listed (h : Flight ms b w) (balanced : w.ledger.Balanced) (i : Input)
    (mem : u ∈ w.tasksOf s) : u ∈ (w.apply i).tasksOf s ∨ w.hasEnded u = true := by
  have happens := w.apply_happens i
  generalize w.apply i = v at *
  cases happens with
  | @moves t fs x running =>
    obtain ⟨y, l, -, next, eq⟩ := h.sane.reaches running
    refine .inl ?_
    rw [eq, ← listed_records, records_land, next.lists h.sane.distinct]
    exact List.mem_append_left _ mem
  | @resumes t rest =>
    obtain ⟨ks, cur, eq⟩ := resume_eq { w with queue := rest } t
    rw [eq]
    exact .inl mem
  | @forgets s' u' rest idle queue =>
    by_cases here : u = u'
    · subst here
      have told : .forget s' u ∈ w.ledger.notices := by simp [ledger, queue, Job.isNotice]
      refine .inr ?_
      rw [hasEnded_eq, (balanced.told _ told u rfl).2]
      rfl
    · refine .inl ?_
      simp only [tasksOf, modifySlot, List.getElem?_modify] at mem ⊢
      cases found : w.slots[s]? with
      | none => simp [found] at mem
      | some k =>
        have old : u ∈ k.tasks := by simpa [found] using mem
        by_cases at_s : s' = s
        · simp [at_s, old, here]
        · simpa [at_s] using old
  | launches | subscribes => exact .inl mem
  | stirs stirred => exact .inl ((tasksOf_records stirred.rest.1 s).symm ▸ mem)

/-- The task of an edit gets listed. -/
theorem Flight.edit_listed (h : Flight ms b w) {e : Edit} (marked : w.mark? = some (.edited e))
    (worker : e.worker = some u) : u ∈ w.tick.tasksOf e.slot := by
  obtain ⟨t, fs, doc, text, running, rfl⟩ := mark?_edited marked
  obtain ⟨y, l, -, next, eq⟩ := h.sane.reaches running
  have hired : w.workerFor doc text = some u := worker
  rw [tick_running running, eq, ← listed_records, records_land, next.lists h.sane.distinct]
  refine List.mem_append_right _ ?_
  simp [World.hired, hired]

theorem Flight.apply_roster (h : Flight ms b w) (balanced : w.ledger.Balanced) (roster : Roster ms w)
    {i : Input} (allowed : i.IsPublic) : Roster (ms ++ w.marks i) (w.apply i) := by
  rintro s u ⟨e, he, rfl, worker⟩
  rcases List.mem_append.1 he with old | new
  · have there := h.booked.known.workers e u old worker
    have ended : w.hasEnded u = true → (w.apply i).hasEnded u = true := fun ceased => h.apply_ended there ceased allowed
    rcases roster e.slot u ⟨e, old, rfl, worker⟩ with mem | ceased
    · exact (h.apply_listed balanced i mem).imp id ended
    · exact .inr (ended ceased)
  · cases i with
    | tick => exact .inl (h.edit_listed (by simpa [marks] using new) worker)
    | _ => cases new

/-- In every state that comes about, a slot lists the tasks of its edits that have not ended. -/
theorem run_roster (new : w.IsNew) {inputs : List Input} (allowed : ∀ i ∈ inputs, i.IsPublic) :
    Roster (w.marksAlong inputs) (w.run inputs) := by
  have kept : ∀ (ms : List Mark) (v : World) (i : Input),
      (Flight ms (w.bench none) v ∧ v.ledger.Balanced) ∧ Roster ms v → i.IsPublic →
      (Flight (ms ++ v.marks i) (w.bench none) (v.apply i) ∧ (v.apply i).ledger.Balanced) ∧
        Roster (ms ++ v.marks i) (v.apply i) :=
    fun _ _ i h given => ⟨⟨h.1.1.apply given, h.1.1.apply_balanced h.1.2 i⟩, h.1.1.apply_roster h.1.2 h.2 given⟩
  have nobody : Roster [] w := by
    rintro s u ⟨e, he, -⟩
    cases he
  exact (run_induct (I := fun ms v => (Flight ms (w.bench none) v ∧ v.ledger.Balanced) ∧ Roster ms v) kept
    ⟨⟨new.flight, new.balanced⟩, nobody⟩ inputs allowed).2

end
end World
end InkPreview.Live
