import InkPreview.Proofs.Live.Bystanders
/-!
Endings. Nothing but its turn moves a task that is in the queue of runnable tasks, and nothing at all
one that has ended. Main statement: `Flight.stays_ended`.
-/
namespace InkPreview.Live

/-- A wait that only its turn ends, if anything does. -/
def Wait.IsFirm (wait : Wait) : Prop := wait = .turn ∨ wait = .ended

theorem Wait.IsFirm.not_running {wait : Wait} (h : wait.IsFirm) : wait ≠ .running := by
  rcases h with rfl | rfl
  · nofun
  · nofun

theorem Wait.IsFirm.not_loose {wait : Wait} (h : wait.IsFirm) : ¬ wait.IsLoose := by
  rcases h with rfl | rfl
  · exact id
  · exact id

namespace World

/-- The task `u` is as `k` is, with no alarm that could wake it. It may be watched, or asked to
cancel. -/
structure Stays (w : World) (u : TaskId) (k : Task) : Prop where
  task : ∃ k', w.tasks[u]? = some k' ∧ k'.post = k.post ∧ k'.result = k.result ∧
    (k.mustCancel = true → k'.mustCancel = true)
  unalarmed : ∀ a ∈ w.alarms, a.task ≠ u

section
variable {ms : List Mark} {b : Bench} {now w v : World} {t u : TaskId} {k : Task}

theorem Flight.run (h : Flight ms b w) {inputs : List Input} (allowed : ∀ i ∈ inputs, i.IsPublic) :
    Flight (ms ++ w.marksAlong inputs) b (w.run inputs) :=
  run_induct (I := fun ms v => Flight ms b v) (fun _ _ _ h => h.apply) h inputs allowed

namespace Stays

theorem spared (h : w.Stays u k) (step : Spares u w v) : v.Stays u k := by
  obtain ⟨k', found, post, result, asked⟩ := h.task
  obtain ⟨k'', found', post', result', asked'⟩ := step.task k' found
  exact ⟨⟨k'', found', post'.trans post, result'.trans result, fun must => asked' (asked must)⟩,
    fun a mem at_u => h.unalarmed a (step.alarms a mem at_u) at_u⟩

/-- A task that is found with another wait is another one. -/
theorem other (h : w.Stays u k) {k' : Task} (found : w.tasks[t]? = some k') (wait : k'.wait ≠ k.wait) :
    t ≠ u := by
  rintro rfl
  obtain ⟨x, found', same, -⟩ := h.task
  obtain rfl := Option.some.inj (found.symm.trans found')
  exact wait (congrArg Post.wait same)

theorem nudge {H : TaskId → Prop} (h : w.Stays u k) (firm : k.wait.IsFirm) (step : Nudge H w v) : v.Stays u k := by
  cases step with
  | ask => exact h.spared (.modifyTask w _ fun _ _ => ⟨rfl, rfl, fun _ => rfl⟩)
  | regroup => exact ⟨h.task, h.unalarmed⟩
  | @detach t k' _ found loose =>
    have other : t ≠ u := h.other found fun same => firm.not_loose (same ▸ loose)
    cases k'.wait with
    | lock s => exact Stays.spared (w := w.modifySlot s _) ⟨h.task, h.unalarmed⟩ (.wake _ _ other)
    | _ => exact h.spared (.wake w _ other)
  | ring set => exact h.spared (.wake w _ (h.unalarmed _ set))
  | join found waits | learn found waits | hear found waits =>
    refine h.spared (.wake w _ (h.other found fun same => ?_))
    rw [waits] at same
    rcases firm with eq | eq
    · rw [eq] at same
      cases same
    · rw [eq] at same
      cases same

theorem brushes (h : w.Stays u k) (firm : k.wait.IsFirm) (steps : Brushes u w v) : v.Stays u k :=
  steps.keep (P := fun x => x.Stays u k) (fun _ _ h step => h.spared step)
    (fun _ _ _ h step => h.nudge firm step) h

theorem not_current (h : w.Stays u k) (firm : k.wait.IsFirm) (flight : Flight ms b w) (fs : List Frame)
    (s : Signal) : w.current ≠ some (u, fs, s) := by
  intro running
  obtain ⟨k', found, runs⟩ := (flight.steady.midst.agrees u).2 ⟨fs, s, running⟩
  exact h.other found (fun same => firm.not_running (same ▸ runs)) rfl

/-- Nothing but its own turn touches a task that is firm. -/
theorem apply (h : w.Stays u k) (firm : k.wait.IsFirm) (flight : Flight ms b w) (i : Input)
    (waits : k.wait = .turn → ¬ w.Turns i u) : (w.apply i).Stays u k := by
  obtain ⟨k', found, same, -⟩ := h.task
  have wait : k'.wait = k.wait := congrArg Post.wait same
  refine h.brushes firm (flight.apply_brushes i found ?_ (fun s eq => ?_) fun turn => waits (wait ▸ turn))
  · exact wait ▸ firm.not_running
  · exact firm.not_loose (by rw [← wait, eq]; trivial)

end Stays

/-- What no alarm is set for: a task that is firm, as it is. -/
theorem Flight.stays (h : Flight ms b w) (found : w.tasks[u]? = some k) (firm : k.wait.IsFirm) :
    w.Stays u k := by
  have post := h.steady.midst.post_of_task found firm.not_running
  refine ⟨⟨k, found, rfl, rfl, id⟩, h.steady.midst.orderly.no_alarm post ?_ ?_⟩
  · rcases firm with eq | eq <;> simp [Task.post, eq]
  · rcases firm with eq | eq <;> simp [Task.post, eq]

/-! ### Tasks that do not run -/

/-- What a task is at. -/
def post? (w : World) (u : TaskId) : Option Post := (w.bench w.current).posts[u]?

theorem Flight.post?_running (h : Flight ms b w) {fs : List Frame} {s : Signal}
    (running : w.current = some (t, fs, s)) : w.post? t = some ⟨fs, s, .running⟩ := by
  have agrees := h.steady.midst.agrees
  rw [running] at agrees
  rw [post?, running]
  exact running_post agrees.runs

theorem post?_other (other : ∀ fs s, w.current ≠ some (u, fs, s)) :
    w.post? u = w.tasks[u]?.map Task.post :=
  other_post fun t fs s running => by
    rintro rfl
    exact other fs s running

theorem Stays.post (h : w.Stays u k) (firm : k.wait.IsFirm) (flight : Flight ms b w) :
    w.post? u = some k.post := by
  obtain ⟨k', found, same, -⟩ := h.task
  rw [post?_other (h.not_current firm flight), found, Option.map_some, same]

theorem Flight.not_current (h : Flight ms b w) (found : w.tasks[u]? = some k) (idle : k.wait ≠ .running)
    (fs : List Frame) (s : Signal) : w.current ≠ some (u, fs, s) := fun running =>
  h.steady.midst.agrees.other found idle u fs s running rfl

/-- The step of another task leaves a task its frames, and what moves it, unless it is woken. -/
theorem Flight.move_old (h : Flight ms b w) {fs : List Frame} {s : Signal}
    (running : w.current = some (t, fs, s)) (found : w.tasks[u]? = some k) (other : t ≠ u) :
    ∃ k', (w.move t fs s).tasks[u]? = some k' ∧ k'.frames = k.frames ∧
      (k'.signal = k.signal ∨ k'.signal.IsCalm) := by
  obtain ⟨x, l, deeds, -, eq⟩ := h.sane.reaches running
  obtain ⟨k', found', frames, signal⟩ := deeds.grown.old found
  have put : (l.put t x.tasks)[u]? = some k' := by
    cases l with
    | go => exact found'
    | park | turn | timed | finish => simp [Landing.put, other, found']
  obtain ⟨k'', found'', frames', signal'⟩ := (land_grown w.Begins x t l).old put
  rw [eq]
  refine ⟨k'', found'', frames'.trans frames, ?_⟩
  rcases signal' with same | calm
  · exact same ▸ signal
  · exact .inr calm

/-- A task that does not run keeps its frames, whatever happens. It may be woken or get its turn. -/
theorem Flight.apply_old (h : Flight ms b w) {i : Input} (allowed : i.IsPublic)
    (found : w.tasks[u]? = some k) (idle : k.wait ≠ .running) :
    ∃ q, (w.apply i).post? u = some q ∧ q.frames = k.frames ∧
      (q.signal = k.signal ∨ q.signal.IsCalm) := by
  have next := h.apply allowed
  have apart := h.not_current found idle
  -- Unless it now runs, its post is read off the list of tasks.
  have read : ∀ {v : World}, (∀ fs s, v.current ≠ some (u, fs, s)) →
      (∃ k', v.tasks[u]? = some k' ∧ k'.frames = k.frames ∧ (k'.signal = k.signal ∨ k'.signal.IsCalm)) →
      ∃ q, v.post? u = some q ∧ q.frames = k.frames ∧ (q.signal = k.signal ∨ q.signal.IsCalm) := by
    rintro v away ⟨k', found', frames, signal⟩
    exact ⟨k'.post, by rw [post?_other away, found']; rfl, frames, signal⟩
  have happens := w.apply_happens i
  generalize w.apply i = v at *
  cases happens with
  | @moves t fs s running =>
    have other : t ≠ u := by
      rintro rfl
      exact apart fs s running
    refine read (fun fs' s' running' => ?_) (h.move_old running found other)
    obtain ⟨x, l, -, -, eq⟩ := h.sane.reaches running
    rw [eq, land_current] at running'
    cases l with
    | go => exact other (by simpa [Landing.now] using congrArg (Option.map (·.1)) running')
    | park | turn | timed | finish => cases running'
  | @resumes t rest idle' queue =>
    by_cases here : t = u ∧ k.wait = .turn
    · obtain ⟨rfl, turn⟩ := here
      let s : Signal := if k.mustCancel then .cancelled else k.signal
      have running : (({ w with queue := rest } : World).resume t).current = some (t, k.frames, s) := by
        simp only [World.resume, found, turn, s]
        rfl
      refine ⟨_, next.post?_running running, rfl, ?_⟩
      simp only [s]
      split
      · exact .inr trivial
      · exact .inl rfl
    · rcases resume_cases { w with queue := rest } t with same | ⟨k', found', turn, eq⟩
      · rw [same]
        exact read apart ⟨k, found, rfl, .inl rfl⟩
      · have other : t ≠ u := by
          rintro rfl
          obtain rfl := Option.some.inj (found.symm.trans found')
          exact here ⟨rfl, turn⟩
        rw [eq]
        refine read (fun fs s running => other ?_) ⟨k, ?_, rfl, .inl rfl⟩
        · simpa [World.go] using congrArg (Option.map (·.1)) running
        · simp [World.go, World.modifyTask, other, found]
  | forgets | subscribes => exact read apart ⟨k, found, rfl, .inl rfl⟩
  | @launches op idle' =>
    refine read (fun fs s running => ?_) ⟨k, getElem?_concat_iff.2 (.inl found), rfl, .inl rfl⟩
    have here : w.tasks.length = u := by
      simpa [World.launch] using congrArg (Option.map (·.1)) running
    exact Nat.lt_irrefl _ (here ▸ (List.getElem?_eq_some_iff.1 found).1)
  | stirs stirred =>
    exact read (fun fs s running => apart fs s (stirred.rest.2.2.2.1 ▸ running)) (stirred.grown.old found)

/-- A task in the queue of runnable tasks stays as it is until it gets its turn. -/
theorem Flight.apply_turn (h : Flight ms b w) (i : Input) (found : w.tasks[u]? = some k)
    (turn : k.wait = .turn) :
    (w.apply i).Stays u k ∨ i = .tick ∧ w.current = none ∧
      (w.apply i).current = some (u, k.frames, if k.mustCancel then .cancelled else k.signal) := by
  by_cases due : w.Turns i u
  · obtain ⟨rfl, idle, rest, queue⟩ := due
    refine .inr ⟨rfl, idle, ?_⟩
    have step : w.apply .tick = ({ w with queue := rest } : World).resume u := tick_job idle queue
    rw [step]
    simp only [World.resume, found, turn]
    rfl
  · exact .inl ((h.stays found (.inl turn)).apply (.inl turn) h i fun _ => due)

/-- What is known of a task that has ended stays so, and the task never runs. -/
theorem Flight.stays_ended (h : Flight ms b w) (found : w.tasks[u]? = some k) (ceased : k.wait = .ended)
    {after : List Input} (allowed : ∀ i ∈ after, i.IsPublic) :
    (∃ k', (w.run after).tasks[u]? = some k' ∧ k'.frames = k.frames ∧ k'.wait = .ended ∧
      k'.result = k.result) ∧ ∀ fs s, (w.run after).current ≠ some (u, fs, s) := by
  have firm : k.wait.IsFirm := .inr ceased
  have kept : ∀ (ns : List Mark) (v : World) (i : Input), Flight ns b v ∧ v.Stays u k → i.IsPublic →
      Flight (ns ++ v.marks i) b (v.apply i) ∧ (v.apply i).Stays u k :=
    fun _ _ i h given => ⟨h.1.apply given, h.2.apply firm h.1 i fun turn => nomatch ceased.symm.trans turn⟩
  obtain ⟨flight, stays⟩ := run_induct (I := fun ns v => Flight ns b v ∧ v.Stays u k) kept
    ⟨h, h.stays found firm⟩ after allowed
  obtain ⟨k', found', post, result, -⟩ := stays.task
  exact ⟨⟨k', found', congrArg Post.frames post, (congrArg Post.wait post).trans ceased, result⟩,
    stays.not_current firm flight⟩

end
end World
end InkPreview.Live
