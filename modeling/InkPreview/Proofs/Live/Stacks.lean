import InkPreview.Proofs.Live.Compilation
/-!
Stacks. A step leaves the frames of every task but the running one alone, and leaves that one with the
frames it lands on; all but the topmost of the frames it had are still there. What a task does above some
frames is followed through a run by `Sits`. Main statements: `Flight.apply_stack`, `Next.below` and
`Flight.apply_sits`.
-/
namespace InkPreview.Live

/-- The task goes on or waits, above the frames `base`. -/
def Landing.Above (base : List Frame) : Landing → Prop
  | .go fs _ | .park fs _ | .turn fs | .timed fs _ _ => base <:+ fs
  | .finish _ => False

/-- The landing is at one of the places `P`, above the frames `base`; what waits there may be woken with anything
that a wait ends on. -/
def Landing.Puts (P : List Frame → Signal → Prop) (base : List Frame) : Landing → Prop
  | .go fs s => ∃ pre, fs = pre ++ base ∧ P pre s
  | .park fs _ | .turn fs | .timed fs _ _ => ∃ pre, pre ≠ [] ∧ fs = pre ++ base ∧ ∀ s, s.IsCalm → P pre s
  | .finish _ => False

section
variable {base fs pushed : List Frame} {l : Landing}

theorem Landing.Above.trans {top : List Frame} (h : l.Above top) (below : base <:+ top) : l.Above base := by
  cases l with
  | go | park | turn | timed => exact below.trans h
  | finish => exact h

theorem Landing.Above.frames (h : l.Above base) : ∃ more, l.frames = more ++ base := by
  cases l with
  | go | park | turn | timed => exact h.imp fun _ eq => eq.symm
  | finish => exact h.elim

theorem Op.Lands.above {op : Op} {new : TaskId} (h : op.Lands new fs l) : l.Above fs := by
  cases h with
  | opens | waits | turn | timed | answers => exact List.suffix_append _ _
  | limited => exact List.suffix_cons _ _

theorem World.Acted.above {i : Nat} {u : Update} {todo : List Action} (h : World.Acted i u todo fs l) : l.Above fs := by
  cases h with
  | through | fails => exact List.suffix_refl _
  | turn | timed | edits | closes | asks | skips => exact List.suffix_cons _ _

theorem World.Told.above {w : World} {u : Update} {js : List Nat} (h : World.Told w u fs js l) : l.Above fs := by
  cases h with
  | through | stale => exact List.suffix_refl _
  | script _ _ acted => exact acted.above.trans (List.suffix_cons _ _)
  | clients => exact (List.suffix_cons _ _).trans (List.suffix_cons _ _)
  | nobody => exact List.suffix_cons _ _

theorem World.Killed.above {p : ProcessId} {why : KillReason} (h : World.Killed p why fs l) : l.Above fs := by
  cases h with
  | timedOut | cancelled => exact List.suffix_refl _
  | turn | timed => exact List.suffix_cons _ _

theorem World.Closes.above {doc : DocId} (h : World.Closes doc fs l) : l.Above fs := by
  cases h with
  | through => exact List.suffix_refl _
  | waits => exact List.suffix_cons _ _

end

namespace World
variable {ms : List Mark} {b : Bench} {w v : World} {t u : TaskId} {fs : List Frame} {s : Signal}
  {i : Input} {l : Landing}
  {ks : List Slot}

/-- The frames of a task that does not run. -/
theorem stackOf_other (other : ∀ fs s, w.current ≠ some (u, fs, s)) :
    w.stackOf u = (w.tasks[u]?.map (·.frames)).getD [] := by
  unfold stackOf
  split
  · rename_i t fs s running
    split
    · rename_i same
      exact absurd (same ▸ running) (other fs s)
    · rfl
  · rfl

theorem stackOf_idle (idle : w.current = none) (u : TaskId) :
    w.stackOf u = (w.tasks[u]?.map (·.frames)).getD [] :=
  stackOf_other fun fs s running => by simp [idle] at running

theorem stackOf_park (there : t < w.tasks.length) (fs : List Frame) (wait : Wait) :
    (w.park t fs wait).stackOf t = fs := by
  have idle := current_park w t fs wait
  obtain ⟨s, wait', found, -⟩ := land_post there fs wait
  rw [post?_other fun fs' s' => by rw [idle]; nofun] at found
  obtain ⟨k, at_t, post⟩ := Option.map_eq_some_iff.1 found
  rw [stackOf_idle idle, at_t]
  exact congrArg Post.frames post

theorem stackOf_land (there : t < w.tasks.length) (l : Landing) : (w.land t l).stackOf t = l.frames := by
  cases l with
  | go fs s => exact stackOf_running rfl
  | park fs wait => exact stackOf_park there fs wait
  | turn fs => exact stackOf_park there fs .turn
  | timed fs wait n => exact stackOf_park (w := w.setAlarm t n) there fs wait
  | finish r =>
    have idle : (w.land t (.finish r)).current = none := land_current w t (.finish r)
    obtain ⟨k, found⟩ : ∃ k, w.tasks[t]? = some k := ⟨_, List.getElem?_eq_getElem there⟩
    rw [stackOf_idle idle, show (w.land t (.finish r)).tasks[t]? = _ from finish_task r found]
    rfl

theorem current_sleep (w : World) (t : TaskId) (fs : List Frame) (micros : Int) :
    (w.sleep t fs micros).current = none := by
  unfold sleep
  split
  · exact current_park w t fs .turn
  · exact current_park (w.setAlarm t micros.toNat) t fs .alarm

theorem stackOf_sleep (there : t < w.tasks.length) (fs : List Frame) (micros : Int) :
    (w.sleep t fs micros).stackOf t = fs := by
  unfold sleep
  split
  · exact stackOf_land there (.turn fs)
  · exact stackOf_land there (.timed fs .alarm micros.toNat)

/-- One step of the running task leaves it with the frames it lands on. -/
theorem Flight.tick_stack (h : Flight ms b w) (running : w.current = some (t, fs, s)) :
    ∃ x l, w.Deeds w x ∧ Next w t fs s l x.records ∧ w.tick = x.land t l ∧ w.tick.stackOf t = l.frames := by
  obtain ⟨x, l, deeds, next, eq⟩ := h.sane.reaches running
  have there : t < x.tasks.length := Nat.lt_of_lt_of_le (h.there running) deeds.grown.length
  have step : w.tick = x.land t l := (tick_running running).trans eq
  exact ⟨x, l, deeds, next, step, by rw [step, stackOf_land there]⟩

/-- Tasks are never removed. -/
theorem Flight.apply_tasks (h : Flight ms b w) {i : Input} (allowed : i.IsPublic) :
    w.tasks.length ≤ (w.apply i).tasks.length := by
  have here : Steady ms (w.bench w.current) w :=
    ⟨⟨h.steady.midst.agrees, h.steady.midst.orderly, .refl _⟩, h.steady.eager⟩
  simpa [bench_length] using (h.sane.apply_steady here h.booked.known allowed).midst.since.posts

/-- A task that is not there has no frames. -/
theorem Flight.stackOf_missing (h : Flight ms b w) (missing : w.tasks.length ≤ u) : w.stackOf u = [] := by
  have none : w.tasks[u]? = none := List.getElem?_eq_none missing
  rw [stackOf_other, none]
  · rfl
  · intro fs s running
    exact absurd (h.there running) (Nat.not_lt.2 missing)

/-- The frames of tasks that are not among the given ones. -/
def Bare (ks : List Task) (n : Nat) : Prop := ∀ (u : TaskId) k, ks[u]? = some k → n ≤ u → k.frames = []

theorem bare_old (ks : List Task) : Bare ks ks.length := fun _ _ found late =>
  absurd (List.getElem?_eq_some_iff.1 found).1 (Nat.not_lt.2 late)

theorem Bare.grown {licit : Op → Prop} {xs ys : List Task} {n : Nat} (h : Bare xs n) (grown : Grown licit xs ys) :
    Bare ys n := by
  intro u k found late
  rcases grown.task u k found with ⟨k', found', frames, -⟩ | ⟨-, frames, -⟩
  · exact frames.trans (h u k' found' late)
  · exact frames

theorem Bare.modify {xs : List Task} {n : Nat} (h : Bare xs n) (there : t < n) (f : Task → Task) :
    Bare (xs.modify t f) n := by
  intro u k found late
  have apart : t ≠ u := Nat.ne_of_lt (Nat.lt_of_lt_of_le there late)
  exact h u k (by simpa [List.getElem?_modify, apart] using found) late

/-- New tasks begin with no frames. -/
theorem Flight.apply_bare (h : Flight ms b w) (i : Input) : Bare (w.apply i).tasks w.tasks.length := by
  have old := bare_old w.tasks
  have happens := w.apply_happens i
  generalize w.apply i = v at *
  cases happens with
  | @moves t fs s running =>
    obtain ⟨x, l, deeds, -, eq⟩ := h.sane.reaches running
    have put : Bare (l.put t x.tasks) w.tasks.length := by
      have grown := old.grown deeds.grown
      cases l with
      | go => exact grown
      | park | turn | timed | finish => exact grown.modify (h.there running) _
    rw [eq]
    exact put.grown (land_grown (fun _ => False) x t l)
  | @resumes t rest =>
    rcases resume_cases { w with queue := rest } t with same | ⟨k, found, -, eq⟩
    · rw [same]
      exact old
    · rw [eq]
      exact old.modify (List.getElem?_eq_some_iff.1 found).1 _
  | forgets | subscribes => exact old
  | @launches op =>
    intro u k found late
    rcases getElem?_concat_iff.1 found with before | ⟨-, rfl⟩
    · exact old u k before late
    · rfl
  | stirs stirred => exact old.grown stirred.grown

/-- Who runs after an input has run before or been there, or begins an operation. -/
theorem Flight.apply_current (h : Flight ms b w) {i : Input} (running : (w.apply i).current = some (u, fs, s)) :
    u < w.tasks.length ∨ fs = [] := by
  have happens := w.apply_happens i
  generalize w.apply i = v at *
  cases happens with
  | @moves t fs' s' running' =>
    obtain ⟨x, l, -, -, eq⟩ := h.sane.reaches running'
    rw [eq, land_current] at running
    cases l with
    | go =>
      cases running
      exact .inl (h.there running')
    | park | turn | timed | finish => cases running
  | @resumes t rest idle =>
    rcases resume_cases { w with queue := rest } t with same | ⟨k, found, -, eq⟩
    · rw [same] at running
      exact .inl (h.there running)
    · rw [eq] at running
      cases running
      exact .inl (List.getElem?_eq_some_iff.1 found).1
  | forgets | subscribes => exact .inl (h.there running)
  | launches =>
    cases running
    exact .inr rfl
  | stirs stirred => exact .inl (h.there (stirred.rest.2.2.2.1.symm.trans running))

/-- Whatever happens, a task that does not take the step keeps its frames. -/
theorem Flight.apply_stack (h : Flight ms b w) {i : Input} (allowed : i.IsPublic) (other : ¬ w.Steps i u) :
    (w.apply i).stackOf u = w.stackOf u := by
  have next := h.apply allowed
  by_cases there : u < w.tasks.length
  · obtain ⟨q, found⟩ : ∃ q, w.post? u = some q := by
      by_cases runs : ∃ fs s, w.current = some (u, fs, s)
      · obtain ⟨fs, s, running⟩ := runs
        exact ⟨_, h.post?_running running⟩
      · exact ⟨_, by rw [post?_other fun fs s running => runs ⟨fs, s, running⟩, List.getElem?_eq_getElem there]; rfl⟩
    obtain ⟨q', found', same⟩ := h.apply_post allowed found other
    rw [next.stackOf_post found', h.stackOf_post found]
    rcases same with rfl | ⟨-, frames, -⟩
    · rfl
    · exact frames
  · rw [h.stackOf_missing (Nat.not_lt.1 there)]
    by_cases runs : ∃ fs s, (w.apply i).current = some (u, fs, s)
    · obtain ⟨fs, s, running⟩ := runs
      rw [stackOf_running running]
      exact (h.apply_current running).resolve_left there
    · rw [stackOf_other fun fs s running => runs ⟨fs, s, running⟩]
      cases found : (w.apply i).tasks[u]? with
      | none => rfl
      | some k => exact h.apply_bare i u k found (Nat.not_lt.1 there)

/-! ### What stays below -/

/-- What begins is done above all the frames. -/
theorem Next.over (h : Next w t fs s l ks) (starts : ¬ s.IsEnd) : l.Above fs := by
  cases h with
  | turn _ h =>
    cases h with
    | begins h => exact h.above
    | @done r _ h =>
      subst h
      cases r with
      | value | fault | cancelled => exact absurd trivial starts
    | opens hs | waits hs | pops _ hs | told hs | waited hs | lost hs => exact absurd hs starts
    | untold | acted | failed | stopped | ran | late | hurried | killed | reaped | killedNow | heeded | unreaped | faulted =>
      exact absurd trivial starts
  | edits => exact (List.suffix_cons _ _).trans (List.suffix_cons _ _)
  | misnamed => exact List.suffix_refl _
  | closes h => exact h.above
  | rests h =>
    rcases h with rfl | ⟨n, rfl⟩
    · exact List.suffix_cons _ _
    · exact List.suffix_cons _ _
  | settles answered =>
    subst answered
    exact absurd (answerSignal_end _) starts
  | drops ends => exact absurd ends starts
  | abandons | quieted | called | leaves | lets | breaks => exact absurd trivial starts

/-- A step goes on above all frames but the topmost. -/
theorem Next.below {f : Frame} (h : Next w t (f :: fs) s l ks) : l.Above fs := by
  by_cases ends : s.IsEnd
  · cases h with
    | turn _ h =>
      cases h with
      | begins => exact absurd ends id
      | opens | waits => exact List.suffix_append _ _
      | pops | untold | failed | stopped | ran | waited | heeded | unreaped | faulted => exact List.suffix_refl _
      | told _ _ h => exact h.above
      | acted h => exact h.above
      | lost _ _ h | killed h | reaped h | killedNow _ h => exact h.above
      | late | hurried => exact List.suffix_cons _ _
    | edits | misnamed | closes | rests => exact absurd ends id
    | abandons | leaves | drops | lets | breaks => exact List.suffix_refl _
    | quieted h =>
      rcases h with ⟨-, rfl⟩ | ⟨-, rfl | rfl⟩
      · exact List.suffix_refl _
      · exact List.suffix_cons _ _
      · exact List.suffix_cons _ _
    | called h =>
      rcases h with ⟨-, rfl⟩ | ⟨-, rfl⟩
      · exact List.suffix_refl _
      · exact List.suffix_cons _ _
    | settles => exact List.suffix_cons _ _
  · exact (h.over ends).trans (List.suffix_cons _ _)

theorem run_take_succ (w : World) {mid : List Input} {n : Nat} (lt : n < mid.length) :
    w.run (mid.take (n + 1)) = (w.run (mid.take n)).apply mid[n] := by
  rw [List.take_succ_eq_append_getElem lt, run_append]
  rfl

/-! ### Places above some frames -/

variable {P : List Frame → Signal → Prop} {base pre : List Frame}

/-- The task is at one of the places `P`, above the frames `base`, or waits there. -/
def Sits (w : World) (P : List Frame → Signal → Prop) (t : TaskId) (base : List Frame) : Prop :=
  ∃ pre s, P pre s ∧ (w.current = some (t, pre ++ base, s) ∨
    pre ≠ [] ∧ s.IsCalm ∧ ∃ wait, w.post? t = some ⟨pre ++ base, s, wait⟩)

theorem Sits.now (at_ : P pre s) (now : w.current = some (t, pre ++ base, s)) : w.Sits P t base :=
  ⟨pre, s, at_, .inl now⟩

theorem Flight.sits_running (h : Flight ms b w) (sits : w.Sits P t base) (running : w.current = some (t, fs, s)) :
    ∃ pre, fs = pre ++ base ∧ P pre s := by
  obtain ⟨pre, s', at_, place⟩ := sits
  obtain ⟨rfl, rfl⟩ := h.at_place place running
  exact ⟨pre, rfl, at_⟩

theorem sits_land (h : l.Puts P base) (there : t < w.tasks.length) : (w.land t l).Sits P t base := by
  have waits : ∀ {x : World} {pre : List Frame} {wait : Wait}, t < x.tasks.length → pre ≠ [] →
      (∀ s, s.IsCalm → P pre s) → (x.park t (pre ++ base) wait).Sits P t base := by
    intro x pre wait there above calm
    obtain ⟨s, wait', found, quiet⟩ := land_post there (pre ++ base) wait
    exact ⟨pre, s, calm s quiet, .inr ⟨above, quiet, wait', found⟩⟩
  cases l with
  | go fs s =>
    obtain ⟨pre, rfl, at_⟩ := h
    exact .now at_ rfl
  | park fs wait =>
    obtain ⟨pre, above, rfl, calm⟩ := h
    exact waits there above calm
  | turn fs =>
    obtain ⟨pre, above, rfl, calm⟩ := h
    exact waits there above calm
  | timed fs wait n =>
    obtain ⟨pre, above, rfl, calm⟩ := h
    exact waits (x := w.setAlarm t n) there above calm
  | finish r => exact h.elim

/-- Whatever happens, a task stays at the places `P` that its own steps do not leave. -/
theorem Flight.apply_sits (h : Flight ms b w) {i : Input} (allowed : i.IsPublic) (sits : w.Sits P t base)
    (calm : ∀ pre s s', P pre s → pre ≠ [] → s.IsCalm → s'.IsCalm → P pre s')
    (step : ∀ pre s, i = .tick → P pre s → w.current = some (t, pre ++ base, s) →
      ∃ (x : World) (l : Landing), w.tick = x.land t l ∧ t < x.tasks.length ∧ l.Puts P base) : (w.apply i).Sits P t base := by
  by_cases steps : w.Steps i t
  · obtain ⟨rfl, fs, s, running⟩ := steps
    obtain ⟨pre, rfl, at_⟩ := h.sits_running sits running
    obtain ⟨x, l, eq, there, puts⟩ := step pre s rfl at_ running
    show w.tick.Sits P t base
    rw [eq]
    exact sits_land puts there
  · obtain ⟨pre, s, at_, now | ⟨above, quiet, wait, found⟩⟩ := sits
    · exact .now at_ (current_apply now fun tick => steps ⟨tick, _, _, now⟩)
    · obtain ⟨s', wait', quiet', found'⟩ := h.apply_calm allowed found quiet steps
      exact ⟨pre, s', calm pre s s' at_ above quiet quiet', .inr ⟨above, quiet', wait', found'⟩⟩

/-- A run leaves a task at the places `P` that its own steps in the course of the run do not leave. -/
theorem Flight.run_sits (h : Flight ms b w) {inputs : List Input} (allowed : ∀ i ∈ inputs, i.IsPublic)
    (sits : w.Sits P t base) (calm : ∀ pre s s', P pre s → pre ≠ [] → s.IsCalm → s'.IsCalm → P pre s')
    (step : ∀ n < inputs.length, ∀ v, v = w.run (inputs.take n) → (∃ ms b, Flight ms b v) → ∀ pre s, P pre s →
      v.current = some (t, pre ++ base, s) →
        ∃ (x : World) (l : Landing), v.tick = x.land t l ∧ t < x.tasks.length ∧ l.Puts P base) :
    (w.run inputs).Sits P t base := by
  have all : ∀ n ≤ inputs.length, (∃ ms b, Flight ms b (w.run (inputs.take n))) ∧
      (w.run (inputs.take n)).Sits P t base := by
    intro n le
    induction n with
    | zero => exact ⟨⟨_, _, h⟩, sits⟩
    | succ n ih =>
      obtain ⟨⟨ms', b', flight⟩, sits'⟩ := ih (Nat.le_of_succ_le le)
      have given := allowed _ (List.getElem_mem le)
      rw [run_take_succ w le]
      refine ⟨⟨_, _, flight.apply given⟩, flight.apply_sits given sits' calm fun pre s _ at_ running => ?_⟩
      exact step n le _ rfl ⟨_, _, flight⟩ pre s at_ running
  have whole := (all inputs.length (Nat.le_refl _)).2
  rwa [List.take_length] at whole

end World
end InkPreview.Live
