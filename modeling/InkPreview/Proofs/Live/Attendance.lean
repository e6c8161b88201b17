import InkPreview.Proofs.Live.Revisions
/-!
Attendance. A step cancels no more than it means to while the tasks it cancels have a duty and wait for no group; and a
task that waits for a process with a limit has it followed for itself by a task that does nothing else. Main statements:
`Contained.moved`, `Suited.move` and `Attended.move`.
-/
namespace InkPreview.Live

namespace Duty

/-- A landing that goes with the duty. -/
structure Bears (d : Duty) (l : Landing) : Prop where
  frames : ∀ f ∈ l.frames, d.MayHold f
  begins : ∀ fs op, l = .go fs (.start op) → d.MayBegin op
  lone : l.IsLone

namespace Bears
variable {d : Duty} {fs : List Frame}

theorem go {s : Signal} (frames : ∀ f ∈ fs, d.MayHold f) (ends : s.IsEnd) : d.Bears (.go fs s) := by
  refine ⟨frames, ?_, trivial⟩
  rintro _ op eq
  obtain ⟨-, rfl⟩ := Landing.go.inj eq
  exact ends.elim

theorem call {op : Op} (frames : ∀ f ∈ fs, d.MayHold f) (begins : d.MayBegin op) : d.Bears (.go fs (.start op)) := by
  refine ⟨frames, ?_, trivial⟩
  rintro _ _ ⟨-, -⟩
  exact begins

theorem park {wait : Wait} (frames : ∀ f ∈ fs, d.MayHold f) (lone : ∀ g, wait ≠ .group g) : d.Bears (.park fs wait) :=
  ⟨frames, nofun, lone⟩

theorem turn (frames : ∀ f ∈ fs, d.MayHold f) : d.Bears (.turn fs) := ⟨frames, nofun, trivial⟩

theorem timed {wait : Wait} {n : Nat} (frames : ∀ f ∈ fs, d.MayHold f) (lone : ∀ g, wait ≠ .group g) :
    d.Bears (.timed fs wait n) := ⟨frames, nofun, lone⟩

/-- What goes with a duty does so after a step, too. -/
theorem suits {l : Landing} (h : d.Bears l) {k : Task} (suits : d.Suits k.post) : d.Suits (l.leave k).post := by
  cases l with
  | go => exact suits
  | park | timed => exact ⟨h.frames, nofun, h.lone⟩
  | turn => exact ⟨h.frames, nofun, nofun⟩
  | finish => exact ⟨nofun, suits.begins, nofun⟩

theorem runs {s : Signal} (h : d.Bears (.go fs s)) : d.Suits ⟨fs, s, .running⟩ where
  frames := h.frames
  begins op start := h.begins fs op (congrArg _ start)
  wait := nofun

end Bears
end Duty

section
variable {fs : List Frame} {x : TaskId} {l : Landing}

namespace World
variable {w : World} {t : TaskId} {s : Signal} {ks : List Slot}

/-! ### What the following of a process leads to -/

/-- A task that follows a process goes on as it goes with that. -/
theorem Next.follows (h : Next w t fs s l ks) (frames : ∀ f ∈ fs, ∃ p, f = .following p)
    (begins : ∀ op, s = .start op → ∃ p, op = .follow p) : (Duty.follow x).Bears l := by
  have below : ∀ {f : Frame} {fs : List Frame}, (∀ g ∈ f :: fs, ∃ p, g = .following p) →
      (∃ p, f = .following p) ∧ ∀ g ∈ fs, ∃ p, g = .following p :=
    fun all => ⟨all _ List.mem_cons_self, fun g hg => all g (List.mem_cons_of_mem _ hg)⟩
  cases h with
  | turn _ h =>
    cases h with
    | done => exact ⟨nofun, nofun, trivial⟩
    | begins h =>
      obtain ⟨p, rfl⟩ := begins _ rfl
      cases h with
      | opens h => cases h
      | waits h => cases h
      | turn h =>
        cases h with
        | follow => exact .turn (all_cons ⟨p, rfl⟩ frames)
      | timed h =>
        cases h with
        | follow => exact .timed (all_cons ⟨p, rfl⟩ frames) nofun
      | limited h => cases h
      | answers h =>
        cases h with
        | follow => exact .go frames trivial
    | pops _ _ ends => exact .go (below frames).2 ends
    | opens _ h =>
      obtain ⟨p, rfl⟩ := (below frames).1
      cases h
    | waits _ h =>
      obtain ⟨p, rfl⟩ := (below frames).1
      cases h
    | killedNow hf | faulted hf =>
      obtain ⟨p, rfl⟩ := (below frames).1
      simp at hf
    | told | untold | acted | failed | stopped | ran | waited | lost | late | hurried | killed | reaped | heeded | unreaped =>
      obtain ⟨p, eq⟩ := (below frames).1
      cases eq
  | edits | misnamed | closes | rests =>
    obtain ⟨p, eq⟩ := begins _ rfl
    cases eq
  | breaks hf =>
    obtain ⟨p, rfl⟩ := (below frames).1
    simp at hf
  | abandons | quieted | called | leaves | settles | drops | lets =>
    obtain ⟨p, eq⟩ := (below frames).1
    cases eq
/-! ### Who waits with a limit -/

variable {p : ProcessId} {f : TaskId}

theorem Told.limits {u : Update} {js : List Nat} (h : Told w u fs js l) (mem : .limited p f ∈ l.frames) :
    .limited p f ∈ fs := by
  cases h with
  | through | stale => exact mem
  | script _ _ acted => cases acted <;> simpa [Landing.frames] using mem
  | clients | nobody => simpa [Landing.frames] using mem

theorem Killed.limits {q : ProcessId} {why : KillReason} (h : Killed q why fs l) (mem : .limited p f ∈ l.frames) :
    .limited p f ∈ fs := by
  cases h <;> simpa [Landing.frames] using mem

/-- Nobody comes to wait for a process with a limit but by beginning a compile. -/
theorem Turn.limits (h : Turn w fs s l) (mem : .limited p f ∈ l.frames) : .limited p f ∈ fs ∨
    ∃ text n, s = .start (.compile text) ∧ f = w.tasks.length ∧ l = .timed (.limited p f :: fs) (.follower f) n := by
  cases h with
  | done => cases mem
  | begins h =>
    cases h with
    | opens h => exact .inl (by cases h <;> simpa [Landing.frames] using mem)
    | waits h => exact .inl (by cases h <;> simpa [Landing.frames] using mem)
    | turn h => exact .inl (by cases h <;> simpa [Landing.frames] using mem)
    | timed h => exact .inl (by cases h <;> simpa [Landing.frames] using mem)
    | limited eq =>
      rcases List.mem_cons.1 mem with here | below
      · obtain ⟨rfl, rfl⟩ := Frame.limited.inj here
        exact .inr ⟨_, _, congrArg _ eq, rfl, rfl⟩
      · exact .inl below
    | answers h => exact .inl (by cases h <;> simpa [Landing.frames] using mem)
  | opens _ h => exact .inl (by cases h <;> simp_all [Landing.frames])
  | waits _ h => exact .inl (by cases h <;> simp_all [Landing.frames])
  | told _ _ h => exact .inl (List.mem_cons_of_mem _ (h.limits mem))
  | acted h => exact .inl (List.mem_cons_of_mem _ (by cases h <;> simpa [Landing.frames] using mem))
  | killed h | reaped h | lost _ _ h | killedNow _ h => exact .inl (List.mem_cons_of_mem _ (h.limits mem))
  | late | hurried => exact .inl (List.mem_cons_of_mem _ (by simpa [Landing.frames] using mem))
  | pops | untold | failed | stopped | ran | waited | heeded | unreaped | faulted =>
    exact .inl (List.mem_cons_of_mem _ mem)

theorem Next.limits (h : Next w t fs s l ks) (mem : .limited p f ∈ l.frames) : .limited p f ∈ fs ∨
    ∃ text n, s = .start (.compile text) ∧ f = w.tasks.length ∧ l = .timed (.limited p f :: fs) (.follower f) n := by
  cases h with
  | turn _ h => exact h.limits mem
  | edits => exact .inl (by simpa [Landing.frames] using mem)
  | misnamed => exact .inl mem
  | closes h => exact .inl (by cases h <;> simpa [Landing.frames] using mem)
  | rests h => exact .inl (by rcases h with rfl | ⟨n, rfl⟩ <;> simpa [Landing.frames] using mem)
  | quieted h =>
    refine .inl (List.mem_cons_of_mem _ ?_)
    rcases h with ⟨-, rfl⟩ | ⟨-, rfl | rfl⟩ <;> simpa [Landing.frames] using mem
  | called h =>
    refine .inl (List.mem_cons_of_mem _ ?_)
    rcases h with ⟨-, rfl⟩ | ⟨-, rfl⟩ <;> simpa [Landing.frames] using mem
  | settles => exact .inl (List.mem_cons_of_mem _ (by simpa [Landing.frames] using mem))
  | abandons | leaves | drops | lets | breaks => exact .inl (List.mem_cons_of_mem _ mem)

/-! ### The tasks that a step adds -/

theorem park_frames (there : t < w.tasks.length) (gs : List Frame) (wait : Wait) :
    (w.park t gs wait).tasks[t]?.map (·.frames) = some gs := by
  have grown : Grown (fun _ => False) (w.tasks.modify t fun k => { k with frames := gs }) (w.park t gs wait).tasks :=
    park_grown w t gs wait
  have put : (w.tasks.modify t fun k => { k with frames := gs })[t]? = some { w.tasks[t] with frames := gs } := by
    simp [there]
  obtain ⟨k', found, frames, -⟩ := grown.old put
  rw [found, Option.map_some, frames]

/-- A compile that comes to wait has started a process. -/
theorem beginCompile_starts {text : String} (idle : (w.beginCompile t fs text).current = none) :
    ∃ (v : World) (q : ProcessId), v.tasks = w.tasks ∧ w.beginCompile t fs text = v.awaitProcess t fs q := by
  have noted := Alike.noteAll w w.finder.notes
  unfold beginCompile at idle ⊢
  dsimp only at idle ⊢
  cases found : (w.noteAll w.finder.notes).finder.answer with
  | error f =>
    rw [found] at idle
    cases idle
  | ok executable =>
    rw [found] at idle
    dsimp only at idle ⊢
    rw [← noted.tasks]
    generalize w.noteAll w.finder.notes = x at idle ⊢
    unfold invoke at idle ⊢
    cases executable with
    | none => cases idle
    | some exe =>
      dsimp only at idle ⊢
      cases wrote : ((x.count "compile.started").setup.child text).writeFault with
      | some fault =>
        rw [wrote] at idle
        cases fault with
        | refused m => cases idle
        | crashed name m => cases idle
      | none =>
        rw [wrote] at idle
        dsimp only at idle ⊢
        cases started : ((x.count "compile.started").setup.child text).startFault with
        | some fault =>
          rw [started] at idle
          cases fault with
          | refused m => cases idle
          | crashed name m => cases idle
        | none =>
          refine ⟨_, _, ?_, rfl⟩
          rfl

/-- A task that comes to wait for a process with a limit has it followed, and waits for the follower. -/
theorem awaitProcess_limits {v : World} {q : ProcessId} (there : t < v.tasks.length)
    (idle : (v.awaitProcess t fs q).current = none)
    (waits : (v.awaitProcess t fs q).tasks[t]?.map (·.frames) = some (.limited p f :: fs)) :
    q = p ∧ v.tasks.length = f ∧ ∃ n, v.awaitProcess t fs q = (v.spawn (.follow q) fun f => [.report t f]).2.land t
      (.timed (.limited q v.tasks.length :: fs) (.follower v.tasks.length) n) := by
  unfold awaitProcess at idle waits ⊢
  dsimp only at idle waits ⊢
  by_cases unlimited : v.setup.limit.isZero = true
  · rw [if_pos unlimited] at idle
    cases idle
  · rw [if_neg unlimited] at waits ⊢
    let x := (v.spawn (.follow q) fun f => [.report t f]).2
    have more : t < x.tasks.length := lt_length_spawn there _ _
    by_cases negative : v.setup.limit.isNegative = true
    · rw [if_pos negative] at waits
      have parked := park_frames (w := x.stopped t v.tasks.length)
        (Nat.lt_of_lt_of_eq more (length_stopped _ _ _).symm)
        (.stoppingFollower q .timedOut :: fs) (.follower v.tasks.length)
      cases waits.symm.trans parked
    · rw [if_neg negative] at waits ⊢
      let l : Landing := .timed (.limited q v.tasks.length :: fs) (.follower v.tasks.length) v.setup.limit.millionths.toNat
      have parked : (x.land t l).tasks[t]?.map (·.frames) = some l.frames :=
        park_frames (w := x.setAlarm t v.setup.limit.millionths.toNat) more _ _
      obtain ⟨⟨rfl, rfl⟩, -⟩ : (q = p ∧ v.tasks.length = f) ∧ fs = fs := by
        simpa [l, Landing.frames] using parked.symm.trans waits
      exact ⟨rfl, rfl, _, rfl⟩

/-- A task that comes to wait with a limit has the process followed for itself. -/
theorem beginCompile_attended {text : String} (there : t < w.tasks.length)
    (asked : ∀ k, w.tasks[t]? = some k → k.mustCancel = true → k.duty? ≠ none)
    (idle : (w.beginCompile t fs text).current = none)
    (waits : (w.beginCompile t fs text).tasks[t]?.map (·.frames) = some (.limited p f :: fs)) :
    f ≠ t ∧ ∃ k, (w.beginCompile t fs text).tasks[f]? = some k ∧
      (⟨[], .start (.follow p), .turn, false, [.report t f], none⟩ : Task).Handled False k := by
  obtain ⟨v, q, tasks, eq⟩ := beginCompile_starts idle
  rw [eq] at idle waits ⊢
  rw [← tasks] at there asked
  obtain ⟨rfl, rfl, n, lands⟩ := awaitProcess_limits there idle waits
  obtain ⟨k, found⟩ : ∃ k, v.tasks[t]? = some k := ⟨_, List.getElem?_eq_getElem there⟩
  have found' : (v.spawn (.follow q) fun f => [.report t f]).2.tasks[t]? = some k := getElem?_concat_iff.2 (.inl found)
  rw [lands]
  exact ⟨Nat.ne_of_gt there, land_other found' (fun must => ⟨asked k found must, by simp [Landing.IsLone]⟩)
    (Nat.ne_of_gt there) List.getElem?_concat_length⟩

/-- What the step of the task `t` has done to the tasks by the time it has landed. -/
structure Moved (w v : World) (t : TaskId) (l : Landing) : Prop where
  old : ∀ (u : TaskId) k, u ≠ t → w.tasks[u]? = some k → ∃ k', v.tasks[u]? = some k' ∧ k.Handled (w.Strikes u) k'
  new : ∀ (u : TaskId) k', v.tasks[u]? = some k' → w.tasks.length ≤ u → k'.Enters
  own : ∀ k, w.tasks[t]? = some k → ∃ k' k'', k.Handled (w.Strikes t) k' ∧ v.tasks[t]? = some k'' ∧
    (k'' = l.leave k' ∨ k'.mustCancel = true ∧ Task.Handled True { l.leave k' with mustCancel := false } k'')
  current : v.current = l.now t

namespace Moved
variable {v : World} {u : TaskId} {k' : Task}

theorem duty (h : w.Moved v t l) {k : Task} (found : w.tasks[u]? = some k) :
    ∃ k', v.tasks[u]? = some k' ∧ k'.duty? = k.duty? := by
  by_cases here : u = t
  · subst here
    obtain ⟨k', k'', handled, found', rfl | ⟨-, handled'⟩⟩ := h.own k found
    · exact ⟨_, found', (l.leave_duty k').trans handled.duty⟩
    · exact ⟨_, found', handled'.duty.trans ((l.leave_duty k').trans handled.duty)⟩
  · obtain ⟨k', found', handled⟩ := h.old u k here found
    exact ⟨k', found', handled.duty⟩

theorem hasDuty (h : w.Moved v t l) {d : Duty} (duty : w.HasDuty u d) : v.HasDuty u d := by
  obtain ⟨k, found, of_k⟩ := duty
  obtain ⟨k', found', same⟩ := h.duty found
  exact ⟨k', found', same.trans of_k⟩

/-- A task is the one that has moved, or an old one, or a new one. -/
theorem task (h : w.Moved v t l) (there : t < w.tasks.length) (found : v.tasks[u]? = some k') :
    (∃ k k₁, u = t ∧ w.tasks[t]? = some k ∧ k.Handled (w.Strikes t) k₁ ∧ (k' = l.leave k₁ ∨
      k₁.mustCancel = true ∧ Task.Handled True { l.leave k₁ with mustCancel := false } k')) ∨
    (∃ k, w.tasks[u]? = some k ∧ k.Handled (w.Strikes u) k') ∨ k'.Enters := by
  by_cases here : u = t
  · subst here
    obtain ⟨k, at_t⟩ : ∃ k, w.tasks[u]? = some k := ⟨_, List.getElem?_eq_getElem there⟩
    obtain ⟨k₁, k₂, handled, found', left⟩ := h.own k at_t
    obtain rfl := Option.some.inj (found.symm.trans found')
    exact .inl ⟨k, k₁, rfl, at_t, handled, left⟩
  · by_cases old : u < w.tasks.length
    · obtain ⟨k₁, found', handled⟩ := h.old u _ here (List.getElem?_eq_getElem old)
      obtain rfl := Option.some.inj (found.symm.trans found')
      exact .inr (.inl ⟨_, List.getElem?_eq_getElem old, handled⟩)
    · exact .inr (.inr (h.new u k' found (Nat.le_of_not_lt old)))

end Moved

/-- What a step cancels has a duty and waits for no group; and the running task comes to wait for none if it may have
been cancelled by then. -/
structure Contained (w : World) : Prop where
  staffed : w.Staffed
  lone : ∀ t fs s k l ks, w.current = some (t, fs, s) → w.tasks[t]? = some k → k.mustCancel = true ∨ w.Strikes t →
    Next w t fs s l ks → k.duty? ≠ none ∧ l.IsLone

theorem Contained.lands {ms : List Mark} {b : Bench} (h : w.Contained) (flight : Flight ms b w)
    (running : w.current = some (t, fs, s)) :
    ∃ l, Next w t fs s l (w.move t fs s).records ∧ w.Moved (w.move t fs s) t l := by
  obtain ⟨x, l, deeds, next, eq⟩ := flight.sane.reaches running
  have treats := deeds.treats h.staffed
  obtain ⟨k, found⟩ : ∃ k, w.tasks[t]? = some k := ⟨_, List.getElem?_eq_getElem (flight.there running)⟩
  obtain ⟨k', found', handled⟩ := treats.old t k found
  have alone : k'.mustCancel = true → k'.duty? ≠ none ∧ l.IsLone := by
    intro must
    have told : k.mustCancel = true ∨ w.Strikes t := by
      rcases handled.spared with ⟨struck, -⟩ | ⟨same, -⟩
      · exact .inr struck
      · exact .inl (same ▸ must)
    rw [handled.duty]
    exact h.lone t fs s k l _ running found told next
  have landed : Next w t fs s l (w.move t fs s).records := by rwa [eq, records_land]
  refine ⟨l, landed, eq ▸ ⟨fun u y other old => ?_, fun u y' at_u new => ?_, fun y old => ?_, land_current x t l⟩⟩
  · obtain ⟨y', at_u, handled'⟩ := treats.old u y old
    obtain ⟨y'', at_u', handled''⟩ := land_other found' alone other at_u
    exact ⟨y'', at_u', handled'.trans (handled''.mono False.elim)⟩
  · have other : u ≠ t := by
      rintro rfl
      exact Nat.not_lt.2 new (flight.there running)
    by_cases there : u < x.tasks.length
    · obtain ⟨y'', at_u', handled'⟩ := land_other found' alone other (List.getElem?_eq_getElem there)
      obtain rfl := Option.some.inj (at_u.symm.trans at_u')
      exact handled'.enters (treats.new u _ (List.getElem?_eq_getElem there) new)
    · rcases land_tasks found' alone with tasks | ⟨-, cancelled⟩
      · rw [tasks] at at_u
        exact absurd (by simpa using (List.getElem?_eq_some_iff.1 at_u).1) there
      · exact cancelled.new u y' at_u (by simpa using there)
  · obtain rfl := Option.some.inj (found.symm.trans old)
    rcases land_tasks found' alone with tasks | ⟨must, cancelled⟩
    · exact ⟨k', l.leave k', handled, by simp [tasks, found'], .inl rfl⟩
    · have cleared : (x.tasks.modify t fun k => { l.leave k with mustCancel := false })[t]? =
          some { l.leave k' with mustCancel := false } := by simp [found']
      obtain ⟨k'', at_t, handled'⟩ := cancelled.old t _ cleared
      exact ⟨k', k'', handled, at_t, .inr ⟨must, handled'.mono fun _ => trivial⟩⟩

theorem Contained.moved {ms : List Mark} {b : Bench} (h : w.Contained) (flight : Flight ms b w)
    (running : w.current = some (t, fs, s)) : ∃ l ks, Next w t fs s l ks ∧ w.Moved (w.move t fs s) t l := by
  obtain ⟨l, next, moved⟩ := h.lands flight running
  exact ⟨l, _, next, moved⟩

/-! ### What goes with a duty -/

/-- A task that has the duty is where it goes with that. -/
structure Suited (w : World) (d : Duty) : Prop where
  suits : ∀ (u : TaskId) k, w.tasks[u]? = some k → k.duty? = some d → d.Suits k.post
  running : ∀ u fs s k, w.current = some (u, fs, s) → w.tasks[u]? = some k → k.duty? = some d →
    d.Suits ⟨fs, s, .running⟩

/-- A task that waits with a limit has the process followed for itself. -/
structure Attended (w : World) : Prop where
  limited : ∀ (u : TaskId) k p f, w.tasks[u]? = some k → .limited p f ∈ k.frames → w.HasDuty f (.follow u)
  limiting : ∀ t fs s p f, w.current = some (t, fs, s) → .limited p f ∈ fs → w.HasDuty f (.follow t)

section
variable {v : World} {d : Duty}

/-- A task after a step that cancels nobody was there before, or has been added. -/
theorem treats_task {H : TaskId → Prop} (treats : Treats H w.tasks v.tasks) {u : TaskId} {k' : Task}
    (found : v.tasks[u]? = some k') : (∃ k, w.tasks[u]? = some k ∧ k.Handled (H u) k') ∨ k'.Enters := by
  by_cases old : u < w.tasks.length
  · obtain ⟨k₁, found', handled⟩ := treats.old u _ (List.getElem?_eq_getElem old)
    obtain rfl := Option.some.inj (found.symm.trans found')
    exact .inl ⟨_, List.getElem?_eq_getElem old, handled⟩
  · exact .inr (treats.new u k' found (Nat.le_of_not_lt old))

/-- A task that gets its turn keeps what it is there for. -/
theorem resumed_task {u : TaskId} {k' : Task} (found : (w.tasks.modify t Task.resumed)[u]? = some k') :
    ∃ k, w.tasks[u]? = some k ∧ (k' = k ∨ k' = k.resumed) ∧ k'.duty? = k.duty? := by
  rw [List.getElem?_modify] at found
  obtain ⟨k, old, rfl⟩ := Option.map_eq_some_iff.1 found
  refine ⟨k, old, ?_⟩
  split
  · exact ⟨.inr rfl, rfl⟩
  · exact ⟨.inl rfl, rfl⟩

theorem hasDuty_resumed {u : TaskId} (tasks : v.tasks = w.tasks.modify t Task.resumed) (h : w.HasDuty u d) :
    v.HasDuty u d := by
  obtain ⟨k, old, duty⟩ := h
  refine ⟨if t = u then k.resumed else k, by simp [tasks, List.getElem?_modify, old], ?_⟩
  split
  · exact duty
  · exact duty

namespace Suited

theorem move (h : w.Suited d) (moved : w.Moved v t l) (there : t < w.tasks.length)
    (bears : ∀ k, w.tasks[t]? = some k → k.duty? = some d → d.Bears l) : v.Suited d := by
  refine ⟨fun u k' found duty => ?_, fun u fs' s' k' now found duty => ?_⟩
  · rcases moved.task there found with ⟨k, k₁, rfl, at_t, handled, left⟩ | ⟨k, at_u, handled⟩ | enters
    · have suited : k.duty? = some d → d.Suits (l.leave k₁).post := fun of_k =>
        (bears k at_t of_k).suits (handled.suits (h.suits u k at_t of_k))
      have of_l := (l.leave_duty k₁).trans handled.duty
      rcases left with rfl | ⟨-, handled'⟩
      · exact suited (of_l.symm.trans duty)
      · exact handled'.suits (suited ((handled'.duty.trans of_l).symm.trans duty))
    · exact handled.suits (h.suits u k at_u (handled.duty.symm.trans duty))
    · exact enters.suits d duty
  · obtain ⟨rfl, rfl⟩ := Landing.now_eq (moved.current.symm.trans now)
    obtain ⟨k₁, found', same⟩ := moved.duty (List.getElem?_eq_getElem there)
    obtain rfl := Option.some.inj (found.symm.trans found')
    exact (bears _ (List.getElem?_eq_getElem there) (same.symm.trans duty)).runs

theorem treated (h : w.Suited d) (there : ∀ t fs s, w.current = some (t, fs, s) → t < w.tasks.length)
    (treats : Treats (fun _ => False) w.tasks v.tasks) (current : v.current = w.current) : v.Suited d := by
  refine ⟨fun u k' found duty => ?_, fun t fs s k' now found duty => ?_⟩
  · rcases treats_task treats found with ⟨k, at_u, handled⟩ | enters
    · exact handled.suits (h.suits u k at_u (handled.duty.symm.trans duty))
    · exact enters.suits d duty
  · rw [current] at now
    obtain ⟨k₁, found', handled⟩ := treats.old t _ (List.getElem?_eq_getElem (there t fs s now))
    obtain rfl := Option.some.inj (found.symm.trans found')
    exact h.running t fs s _ now (List.getElem?_eq_getElem (there t fs s now)) (handled.duty.symm.trans duty)

theorem resume (h : w.Suited d) (t : TaskId) : (w.resume t).Suited d := by
  rcases w.resume_cases t with same | ⟨k, found, -, eq⟩
  · exact same.symm ▸ h
  rw [eq]
  refine ⟨fun u k' at_u duty => ?_, fun u fs s k' now at_u duty => ?_⟩
  · obtain ⟨k₁, old, rfl | rfl, same⟩ := resumed_task at_u
    · exact h.suits u _ old duty
    · exact (h.suits u k₁ old duty).woken rfl (.inl rfl) (.inr (.inr rfl))
  · obtain ⟨rfl, rfl, rfl⟩ : t = u ∧ k.frames = fs ∧ _ = s := by simpa [go] using now
    obtain ⟨k₁, old, -, same⟩ := resumed_task at_u
    obtain rfl := Option.some.inj (found.symm.trans old)
    refine (h.suits t k found (same.symm.trans duty)).woken rfl ?_ (.inr (.inr rfl))
    show (if k.mustCancel then Signal.cancelled else k.signal) = k.signal ∨ _
    split
    · exact .inr trivial
    · exact .inl rfl

/-- A task that begins something from outside has no duty. -/
theorem launch (h : w.Suited d) (op : Op) : (w.launch op).2.Suited d := by
  have enters : (⟨[], .start op, .running, false, [], none⟩ : Task).duty? ≠ some d := nofun
  refine ⟨fun u k' found duty => ?_, fun u fs s k' now found duty => ?_⟩
  · rcases getElem?_concat_iff.1 found with old | ⟨-, rfl⟩
    · exact h.suits u k' old duty
    · exact absurd duty enters
  · obtain ⟨rfl, -, -⟩ : w.tasks.length = u ∧ [] = fs ∧ .start op = s := by simpa [World.launch] using now
    obtain rfl := Option.some.inj (List.getElem?_concat_length.symm.trans found)
    exact absurd duty enters

end Suited

namespace Attended

theorem move (h : w.Attended) (running : w.current = some (t, fs, s)) (next : Next w t fs s l ks)
    (moved : w.Moved (w.move t fs s) t l) (there : t < w.tasks.length)
    (asked : ∀ k, w.tasks[t]? = some k → k.mustCancel = true → k.duty? ≠ none) : (w.move t fs s).Attended := by
  have attended : ∀ {p : ProcessId} {f : TaskId}, .limited p f ∈ fs → (w.move t fs s).HasDuty f (.follow t) :=
    fun mem => moved.hasDuty (h.limiting t fs s _ _ running mem)
  refine ⟨fun u k' p f found mem => ?_, fun u fs' s' p f now mem => ?_⟩
  · rcases moved.task there found with ⟨k, k₁, rfl, at_t, handled, left⟩ | ⟨k, at_u, handled⟩ | enters
    · have frames : k'.frames = (l.leave k₁).frames := by
        rcases left with rfl | ⟨-, handled'⟩
        · rfl
        · exact handled'.frames
      rw [frames] at mem
      have landed : .limited p f ∈ l.frames → (w.move u fs s).HasDuty f (.follow u) := by
        intro mem'
        rcases next.limits mem' with below | ⟨text, n, rfl, -, rfl⟩
        · exact attended below
        · have waits : (w.beginCompile u fs text).tasks[u]?.map (·.frames) = some (.limited p f :: fs) :=
            (congrArg (Option.map (·.frames)) found).trans (congrArg some frames)
          obtain ⟨-, k₂, at_f, handled⟩ := beginCompile_attended there asked moved.current waits
          exact ⟨k₂, at_f, handled.duty⟩
      cases l with
      | go =>
        rw [Landing.leave, handled.frames] at mem
        exact moved.hasDuty (h.limited u k p f at_t mem)
      | park | turn | timed => exact landed mem
      | finish => cases mem
    · rw [handled.frames] at mem
      exact moved.hasDuty (h.limited u k p f at_u mem)
    · rw [enters.frames] at mem
      cases mem
  · obtain ⟨rfl, rfl⟩ := Landing.now_eq (moved.current.symm.trans now)
    rcases next.limits mem with below | ⟨text, n, -, -, eq⟩
    · exact attended below
    · cases eq

theorem treated (h : w.Attended) (treats : Treats (fun _ => False) w.tasks v.tasks) (current : v.current = w.current) :
    v.Attended := by
  refine ⟨fun u k' p f found mem => ?_, fun t fs s p f now mem => ?_⟩
  · rcases treats_task treats found with ⟨k, at_u, handled⟩ | enters
    · exact (h.limited u k p f at_u (handled.frames ▸ mem)).treated treats
    · rw [enters.frames] at mem
      cases mem
  · rw [current] at now
    exact (h.limiting t fs s p f now mem).treated treats

theorem resume (h : w.Attended) (t : TaskId) : (w.resume t).Attended := by
  rcases w.resume_cases t with same | ⟨k, found, -, eq⟩
  · exact same.symm ▸ h
  rw [eq]
  refine ⟨fun u k' p g at_u mem => ?_, fun u fs s p g now mem => ?_⟩
  · refine hasDuty_resumed rfl ?_
    obtain ⟨k₁, old, rfl | rfl, -⟩ := resumed_task at_u
    · exact h.limited u _ p g old mem
    · exact h.limited u k₁ p g old mem
  · obtain ⟨rfl, rfl, -⟩ : t = u ∧ k.frames = fs ∧ _ = s := by simpa [go] using now
    exact hasDuty_resumed rfl (h.limited t k p g found mem)

theorem launch (h : w.Attended) (op : Op) : (w.launch op).2.Attended := by
  have kept : ∀ {u : TaskId} {d : Duty}, w.HasDuty u d → (w.launch op).2.HasDuty u d :=
    fun ⟨k, found, duty⟩ => ⟨k, getElem?_concat_iff.2 (.inl found), duty⟩
  refine ⟨fun u k' p g found mem => ?_, fun u fs s p g now mem => ?_⟩
  · rcases getElem?_concat_iff.1 found with old | ⟨-, rfl⟩
    · exact kept (h.limited u k' p g old mem)
    · cases mem
  · obtain ⟨-, rfl, -⟩ : w.tasks.length = u ∧ [] = fs ∧ .start op = s := by simpa [World.launch] using now
    cases mem

end Attended
end
end World
end
end InkPreview.Live
