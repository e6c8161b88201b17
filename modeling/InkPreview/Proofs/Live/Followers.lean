import InkPreview.Proofs.Live.Attendance
import InkPreview.Proofs.Live.Meetings
/-!
Followers. A task that waits for a process with a limit has it followed by a task that does nothing else, whatever is
cancelled meanwhile; that task waits neither for a lock nor for a group. Main statements: `run_tailed` and
`Flight.follower_alone`.
-/
namespace InkPreview.Live

/-- Frames of nothing but the following of processes, with what may move them. -/
structure IsFollowing (fs : List Frame) (s : Signal) : Prop where
  frames : ∀ f ∈ fs, ∃ p, f = .following p
  begins : ∀ op, s = .start op → ∃ p, op = .follow p

theorem IsFollowing.told {fs : List Frame} {s s' : Signal} (h : IsFollowing fs s) (told : s' = s ∨ s'.IsCalm) :
    IsFollowing fs s' := by
  refine ⟨h.frames, ?_⟩
  rintro op rfl
  rcases told with same | calm
  · exact h.begins op same.symm
  · exact calm.elim

theorem Grown.holds {licit : Op → Prop} {xs ys : List Task} (h : Grown licit xs ys) {u : TaskId} {k' : Task} {f : Frame}
    (found : ys[u]? = some k') (mem : f ∈ k'.frames) : ∃ k, xs[u]? = some k ∧ f ∈ k.frames := by
  rcases h.task u k' found with ⟨k, old, frames, -⟩ | ⟨-, frames, -⟩
  · exact ⟨k, old, frames ▸ mem⟩
  · rw [frames] at mem
    cases mem

namespace World

/-- The task follows a process, if it has not ended. -/
structure Tails (w : World) (f : TaskId) : Prop where
  task : ∃ k, w.tasks[f]? = some k ∧ IsFollowing k.frames k.signal
  running : ∀ fs s, w.current = some (f, fs, s) → IsFollowing fs s

/-- A task that waits with a limit has the process followed. -/
structure Tailed (w : World) : Prop where
  limited : ∀ (u : TaskId) k p f, w.tasks[u]? = some k → .limited p f ∈ k.frames → w.Tails f
  limiting : ∀ t fs s p f, w.current = some (t, fs, s) → .limited p f ∈ fs → w.Tails f

section
variable {ms : List Mark} {b : Bench} {w v : World} {t u f : TaskId} {p : ProcessId} {fs : List Frame} {s : Signal}
  {l : Landing} {licit : Op → Prop}

theorem Tails.grown (h : w.Tails f) (grown : Grown licit w.tasks v.tasks)
    (running : ∀ fs s, v.current = some (f, fs, s) → IsFollowing fs s) : v.Tails f := by
  obtain ⟨k, found, following⟩ := h.task
  obtain ⟨k', found', frames, signal⟩ := grown.old found
  exact ⟨⟨k', found', frames ▸ following.told signal⟩, running⟩

/-- The frames of a task that has landed. -/
theorem put_task {xs : List Task} {k : Task} (found : xs[u]? = some k) :
    ∃ k', (l.put t xs)[u]? = some k' ∧ k'.signal = k.signal ∧
      (k'.frames = k.frames ∨ t = u ∧ k'.frames = l.frames) := by
  have kept : ∃ k', (xs.modify t fun k => { k with frames := l.frames })[u]? = some k' ∧ k'.signal = k.signal ∧
      (k'.frames = k.frames ∨ t = u ∧ k'.frames = l.frames) := by
    rw [List.getElem?_modify, found]
    by_cases here : t = u
    · exact ⟨_, rfl, by simp [here], .inr ⟨here, by simp [here]⟩⟩
    · exact ⟨_, rfl, by simp [here], .inl (by simp [here])⟩
  cases l with
  | go => exact ⟨k, found, rfl, .inl rfl⟩
  | park | turn | timed | finish => exact kept

theorem Flight.apply_tails (h : Flight ms b w) (tails : w.Tails f) (i : Input) : (w.apply i).Tails f := by
  have happens := w.apply_happens i
  generalize w.apply i = v at *
  cases happens with
  | @moves t fs s running =>
    obtain ⟨x, l, deeds, next, eq⟩ := h.sane.reaches running
    obtain ⟨k, found, following⟩ := tails.task
    obtain ⟨k', found', frames, signal⟩ := deeds.grown.old found
    obtain ⟨k'', put, signal', frames'⟩ := put_task (t := t) (l := l) found'
    have bears : t = f → (Duty.follow f).Bears l := by
      rintro rfl
      have now := tails.running fs s running
      exact next.follows now.frames now.begins
    have placed : IsFollowing k''.frames k''.signal := by
      have told : IsFollowing k'.frames k'.signal := frames ▸ following.told signal
      rcases frames' with same | ⟨here, landed⟩
      · exact same ▸ signal' ▸ told
      · exact ⟨landed ▸ (bears here).frames, signal' ▸ told.begins⟩
    obtain ⟨k₁, at_f, same, told⟩ := (land_grown (fun _ => False) x t l).old put
    rw [eq]
    refine ⟨⟨k₁, at_f, same ▸ placed.told told⟩, fun fs' s' now => ?_⟩
    rw [land_current] at now
    obtain ⟨here, rfl⟩ := Landing.now_eq now
    exact ⟨(bears here.symm).frames, fun op start => (bears here.symm).begins fs' op (start ▸ rfl)⟩
  | @resumes t rest =>
    obtain ⟨k, found, following⟩ := tails.task
    rcases ({ w with queue := rest } : World).resume_cases t with same | ⟨k', found', -, eq⟩
    · rw [same]
      exact ⟨tails.task, tails.running⟩
    · rw [eq]
      refine ⟨⟨if t = f then k.resumed else k, ?_, ?_⟩, fun fs s now => ?_⟩
      · simp [World.go, World.modifyTask, List.getElem?_modify, found]
      · split
        · exact following
        · exact following
      · obtain ⟨rfl, rfl, rfl⟩ : t = f ∧ k'.frames = fs ∧ _ = s := by simpa [World.go] using now
        obtain rfl := Option.some.inj (found.symm.trans found')
        refine following.told ?_
        show (if k.mustCancel then Signal.cancelled else k.signal) = k.signal ∨ _
        split
        · exact .inr trivial
        · exact .inl rfl
  | forgets | subscribes => exact ⟨tails.task, tails.running⟩
  | @launches op idle =>
    obtain ⟨k, found, following⟩ := tails.task
    refine ⟨⟨k, getElem?_concat_iff.2 (.inl found), following⟩, fun fs s now => ?_⟩
    obtain ⟨here, -⟩ : w.tasks.length = f ∧ _ := by simpa [World.launch] using now
    exact absurd (List.getElem?_eq_some_iff.1 found).1 (here ▸ Nat.lt_irrefl _)
  | stirs stirred =>
    exact tails.grown stirred.grown fun fs s now => tails.running fs s (stirred.rest.2.2.2.1.symm.trans now)

/-- A task that comes to wait with a limit as it begins a compile has the process followed. -/
theorem beginCompile_tails {text : String} (there : t < w.tasks.length)
    (idle : (w.beginCompile t fs text).current = none)
    (waits : (w.beginCompile t fs text).tasks[t]?.map (·.frames) = some (.limited p f :: fs)) :
    (w.beginCompile t fs text).Tails f := by
  obtain ⟨v, q, tasks, eq⟩ := beginCompile_starts idle
  rw [eq] at idle waits ⊢
  rw [← tasks] at there
  refine ⟨?_, fun fs' s' now => by rw [idle] at now; cases now⟩
  obtain ⟨rfl, rfl, n, lands⟩ := awaitProcess_limits there idle waits
  rw [lands]
  let x := (v.spawn (.follow q) fun f => [.report t f]).2
  let l : Landing := .timed (.limited q v.tasks.length :: fs) (.follower v.tasks.length) n
  let k : Task := ⟨[], .start (.follow q), .turn, false, [.report t v.tasks.length], none⟩
  have found : x.tasks[v.tasks.length]? = some k := List.getElem?_concat_length
  obtain ⟨k', put, signal, frames⟩ := put_task (t := t) (l := l) found
  have apart : ¬ (t = v.tasks.length ∧ k'.frames = l.frames) := fun here => Nat.ne_of_lt there here.1
  obtain ⟨k'', at_f, frames', told⟩ := (land_grown (fun _ => False) x t l).old put
  have begun : IsFollowing k'.frames k'.signal := by
    rw [frames.resolve_right apart, signal]
    exact ⟨by simp [k], fun op start => ⟨q, (Signal.start.inj start).symm⟩⟩
  exact ⟨k'', at_f, frames' ▸ begun.told told⟩

theorem Flight.apply_tailed (h : Flight ms b w) (tailed : w.Tailed) (i : Input) : (w.apply i).Tailed := by
  have kept : ∀ {f : TaskId}, w.Tails f → (w.apply i).Tails f := fun tails => h.apply_tails tails i
  have old : ∀ {u : TaskId} {k : Task} {p : ProcessId} {f : TaskId}, w.tasks[u]? = some k → .limited p f ∈ k.frames →
      (w.apply i).Tails f := fun found mem => kept (tailed.limited _ _ _ _ found mem)
  have happens := w.apply_happens i
  generalize w.apply i = v at *
  cases happens with
  | @moves t fs s running =>
    obtain ⟨x, l, deeds, next, eq⟩ := h.sane.reaches running
    refine ⟨fun u k' p f found mem => ?_, fun u fs' s' p f now mem => ?_⟩
    · have grown : Grown (fun _ => False) (l.put t x.tasks) (w.move t fs s).tasks := eq ▸ land_grown _ x t l
      obtain ⟨k₁, put, mem₁⟩ := grown.holds found mem
      have at_x : ∃ k₂, x.tasks[u]? = some k₂ := by
        have lt := (List.getElem?_eq_some_iff.1 put).1
        rw [Landing.put_length] at lt
        exact ⟨_, List.getElem?_eq_getElem lt⟩
      obtain ⟨k₂, at_x⟩ := at_x
      obtain ⟨k₃, put', -, frames⟩ := put_task (t := t) (l := l) at_x
      obtain rfl := Option.some.inj (put.symm.trans put')
      rcases frames with same | ⟨rfl, landed⟩
      · obtain ⟨k, before, mem'⟩ := deeds.grown.holds at_x (same ▸ mem₁)
        exact old before mem'
      · rcases next.limits (landed ▸ mem₁) with below | ⟨text, n, rfl, -, rfl⟩
        · exact kept (tailed.limiting t fs s p f running below)
        · have step : w.move t fs (.start (.compile text)) = w.beginCompile t fs text := rfl
          rw [step] at eq ⊢
          have idle : (w.beginCompile t fs text).current = none := by
            rw [eq, land_current]
            rfl
          refine beginCompile_tails (p := p) (h.there running) idle ?_
          rw [eq]
          exact park_frames (w := x.setAlarm t n) (Nat.lt_of_lt_of_le (h.there running) deeds.grown.length) _ _
    · rw [eq, land_current] at now
      obtain ⟨rfl, rfl⟩ := Landing.now_eq now
      rcases next.limits mem with below | ⟨text, n, -, -, eq'⟩
      · exact kept (tailed.limiting u fs s p f running below)
      · cases eq'
  | @resumes t rest =>
    rcases ({ w with queue := rest } : World).resume_cases t with same | ⟨k, found, -, eq⟩
    · rw [same] at kept old ⊢
      exact ⟨fun u k p f found mem => old found mem,
        fun t fs s p f now mem => kept (tailed.limiting t fs s p f now mem)⟩
    · rw [eq] at kept old ⊢
      refine ⟨fun u k' p f at_u mem => ?_, fun u fs s p f now mem => ?_⟩
      · obtain ⟨k₁, before, rfl | rfl, -⟩ := resumed_task at_u
        · exact old before mem
        · exact old (k := k₁) before mem
      · obtain ⟨rfl, rfl, -⟩ : t = u ∧ k.frames = fs ∧ _ = s := by simpa [World.go] using now
        exact old found mem
  | forgets | subscribes =>
    exact ⟨fun u k p f found mem => old found mem, fun t fs s p f now mem => kept (tailed.limiting t fs s p f now mem)⟩
  | launches =>
    refine ⟨fun u k' p f found mem => ?_, fun u fs s p f now mem => ?_⟩
    · rcases getElem?_concat_iff.1 found with before | ⟨-, rfl⟩
      · exact old before mem
      · cases mem
    · obtain ⟨-, rfl, -⟩ : w.tasks.length = u ∧ [] = fs ∧ _ = s := by simpa [World.launch] using now
      cases mem
  | stirs stirred =>
    refine ⟨fun u k' p f found mem => ?_, fun t fs s p f now mem => ?_⟩
    · obtain ⟨k, before, mem'⟩ := stirred.grown.holds found mem
      exact old before mem'
    · exact kept (tailed.limiting t fs s p f (stirred.rest.2.2.2.1.symm.trans now) mem)

/-- In every state that comes about, a task that waits with a limit has the process followed. -/
theorem run_tailed (new : w.IsNew) {inputs : List Input} (allowed : ∀ i ∈ inputs, i.IsPublic) :
    (w.run inputs).Tailed := by
  have nobody : w.Tailed :=
    ⟨fun u k p f found => by simp [new.tasks] at found, fun t fs s p f now => by simp [new.current] at now⟩
  have kept : ∀ (ms : List Mark) (v : World) (i : Input), Flight ms (w.bench none) v ∧ v.Tailed → i.IsPublic →
      Flight (ms ++ v.marks i) (w.bench none) (v.apply i) ∧ (v.apply i).Tailed :=
    fun _ _ i h given => ⟨h.1.apply given, h.1.apply_tailed h.2 i⟩
  exact (run_induct (I := fun ms v => Flight ms (w.bench none) v ∧ v.Tailed) kept ⟨new.flight, nobody⟩ inputs allowed).2

/-! ### Followers work for no edit -/

/-- The tasks that follow a process for others are those of no edit. -/
def Unhired (ms : List Mark) (w : World) : Prop := ∀ t p f, .limited p f ∈ w.stackOf t → ∀ r, ¬ Mine ms f r

theorem Tailed.there (h : w.Tailed) (mem : .limited p f ∈ w.stackOf t) : f < w.tasks.length := by
  have tails : w.Tails f := by
    by_cases runs : ∃ fs s, w.current = some (t, fs, s)
    · obtain ⟨fs, s, running⟩ := runs
      exact h.limiting t fs s p f running (stackOf_running running ▸ mem)
    · rw [stackOf_other fun fs s running => runs ⟨fs, s, running⟩] at mem
      cases found : w.tasks[t]? with
      | none => simp [found] at mem
      | some k => exact h.limited t k p f found (by simpa [found] using mem)
  obtain ⟨k, found, -⟩ := tails.task
  exact (List.getElem?_eq_some_iff.1 found).1

theorem workerFor_new {doc : DocId} {text : String} (hired : w.workerFor doc text = some u) : u = w.tasks.length := by
  unfold workerFor at hired
  split at hired
  · split at hired
    · exact (Option.some.inj hired).symm
    · cases hired
  · cases hired

/-- A step that has a process followed hires nobody, and both would be the next task there will be. -/
theorem Flight.apply_unhired (h : Flight ms b w) (tailed : w.Tailed) (unhired : Unhired ms w) {i : Input}
    (allowed : i.IsPublic) :
    Unhired (ms ++ w.marks i) (w.apply i) := by
  rintro t p f mem r ⟨e, edit, worker, rest⟩
  have place : .limited p f ∈ w.stackOf t ∨ (∃ fs text, w.current = some (t, fs, .start (.compile text))) ∧
    f = w.tasks.length := by
    by_cases steps : w.Steps i t
    · obtain ⟨rfl, fs, s, running⟩ := steps
      obtain ⟨x, l, -, next, -, stack⟩ := h.tick_stack running
      rw [show w.apply .tick = w.tick from rfl, stack] at mem
      rcases next.limits mem with below | ⟨text, n, rfl, new, -⟩
      · exact .inl (stackOf_running running ▸ below)
      · exact .inr ⟨⟨fs, text, running⟩, new⟩
    · exact .inl (h.apply_stack allowed steps ▸ mem)
  rcases List.mem_append.1 edit with old | new
  · rcases place with before | ⟨-, rfl⟩
    · exact unhired t p f before r ⟨e, old, worker, rest⟩
    · exact absurd (h.booked.known.workers e _ old worker) (Nat.lt_irrefl _)
  · cases i with
    | tick =>
      obtain ⟨t', fs, doc, text, running, rfl⟩ := mark?_edited (Option.mem_toList.1 new)
      rcases place with before | ⟨⟨fs', text', running'⟩, -⟩
      · exact absurd (tailed.there before) (by simp [workerFor_new worker])
      · cases running.symm.trans running'
    | _ => cases new

theorem run_unhired (new : w.IsNew) {inputs : List Input} (allowed : ∀ i ∈ inputs, i.IsPublic) :
    Unhired (w.marksAlong inputs) (w.run inputs) := by
  have kept : ∀ (ms : List Mark) (v : World) (i : Input), (Flight ms (w.bench none) v ∧ v.Tailed) ∧
    Unhired ms v → i.IsPublic →
      (Flight (ms ++ v.marks i) (w.bench none) (v.apply i) ∧ (v.apply i).Tailed) ∧ Unhired (ms ++ v.marks i)
      (v.apply i) :=
    fun _ _ i h given => ⟨⟨h.1.1.apply given, h.1.1.apply_tailed h.1.2 i⟩, h.1.1.apply_unhired h.1.2 h.2 given⟩
  have nobody : Unhired [] w := by
    rintro t p f - r ⟨e, edit, -⟩
    cases edit
  have begun : (Flight [] (w.bench none) w ∧ w.Tailed) ∧ Unhired [] w :=
    ⟨⟨new.flight, run_tailed new (by simp : ∀ i ∈ ([] : List Input), i.IsPublic)⟩, nobody⟩
  exact (run_induct (I := fun ms v => (Flight ms (w.bench none) v ∧ v.Tailed) ∧ Unhired ms v) kept begun inputs allowed).2

/-- A task that has no frame on top that waits for a lock or for a group waits for none. -/
theorem Flight.alone (h : Flight ms b w) (meeting : w.Meeting) {k : Task} (found : w.tasks[u]? = some k)
    (top : ∀ f gs, k.frames = f :: gs → ¬ f.Meets ∧ ∀ r, f ≠ .queueing r) :
    (∀ s, k.wait ≠ .lock s) ∧ ∀ g, k.wait ≠ .group g := by
  refine ⟨fun s locked => ?_, fun g waits => ?_⟩
  · have stage := h.steady.midst.orderly.stage u _
      (h.steady.midst.post_of_task found (by rw [locked]; nofun))
    rcases k with ⟨fs, sig, wait, must, watchers, result⟩
    obtain rfl : wait = .lock s := locked
    simp only [Task.post] at stage
    generalize at_s : Wait.lock s = wait at stage
    cases stage with
    | plain _ _ loose | holding _ _ _ loose => exact loose.2 s at_s.symm
    | queueing => exact (top _ _ rfl).2 _ rfl
    | fresh _ _ up | rested _ _ _ up | dropped up | called _ _ _ up | leaving up =>
      rcases up with rfl | rfl
      · cases at_s
      · cases at_s
    | finished | quiet | asked => cases at_s
  · obtain ⟨f, gs, frames, meets⟩ := meeting u k found g waits
    exact (top f gs frames).1 meets

theorem Flight.follower_alone (h : Flight ms b w) (meeting : w.Meeting) (tails : w.Tails f) {k : Task}
    (found : w.tasks[f]? = some k) : (∀ s, k.wait ≠ .lock s) ∧ ∀ g, k.wait ≠ .group g := by
  obtain ⟨k', found', following⟩ := tails.task
  obtain rfl := Option.some.inj (found.symm.trans found')
  refine h.alone meeting found fun g gs frames => ?_
  obtain ⟨p, rfl⟩ := following.frames g (frames ▸ List.mem_cons_self)
  exact ⟨id, nofun⟩

end
end World
end InkPreview.Live
