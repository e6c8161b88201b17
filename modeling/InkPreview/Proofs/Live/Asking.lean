import InkPreview.Proofs.Live.Sane
/-!
What steps begin. Apart from what subscribers ask for, a step begins what the operation or the frame it comes to
goes on with, so what is allowed of subscribers and of these is all that is ever begun. Main statements:
`Next.allowed` and `Licensed.apply`.
-/
namespace InkPreview.Live

/-- A subscriber does only what is allowed. -/
def Subscriber.Does (A : Action → Prop) : Subscriber → Prop
  | .script acts => ∀ n, ∀ a ∈ acts n, A a
  | .clients => True

/-- A subscriber at work has only to do what is allowed. -/
def Frame.Does (A : Action → Prop) : Frame → Prop
  | .acting _ _ todo => ∀ a ∈ todo, A a
  | _ => True

/-- What may be begun, if subscribers do what is allowed. -/
structure Allows (A : Action → Prop) (Q : Op → Prop) : Prop where
  edit : ∀ doc text, A (.edit text) → Q (.edit (.name doc) text)
  close : ∀ doc, A .close → Q (.close (.name doc))
  ask : ∀ op, A (.ask op) → Q op
  compile : ∀ text, Q (.compile text)
  opens : ∀ (f : Frame) pushed op, f.Opens pushed op → Q op

/-- Whatever the signal begins may be begun. -/
def Signal.Allowed (Q : Op → Prop) : Signal → Prop
  | .start op => Q op
  | _ => True

theorem Signal.IsEnd.allowed {Q : Op → Prop} {s : Signal} (h : s.IsEnd) : s.Allowed Q := by
  cases s with
  | start => exact h.elim
  | value | fault | cancelled => trivial

/-- Whatever the landing begins may be begun. -/
def Landing.Allowed (Q : Op → Prop) (l : Landing) : Prop := ∀ gs op, l = .go gs (.start op) → Q op

/-- An input brings in only what is allowed. -/
structure Input.Brings (A : Action → Prop) (Q : Op → Prop) (i : Input) : Prop where
  begins : ∀ op, i = .begin op → Q op
  queues : ∀ op, i.Queues op → Q op
  subscribes : ∀ y, i = .subscribe y → y.Does A

section
variable {A : Action → Prop} {Q : Op → Prop} {fs pushed : List Frame} {s : Signal} {l : Landing}

theorem kept_does {subscribers : List Subscriber} (does : ∀ y ∈ subscribers, y.Does A) :
    Frame.Kept subscribers (Frame.Does A) where
  simple f simple := by
    cases f with
    | acting => exact simple.elim
    | _ => trivial
  told _ _ _ _ := trivial
  called _ _ _ _ n _ _ mem short := fun a ha => does _ (List.mem_of_getElem? mem) n a (short.subset ha)
  acted _ _ _ _ h short := fun a ha => h a (short.subset ha)

theorem Landing.allowed_end (h : s.IsEnd) : (Landing.go fs s).Allowed Q := by
  rintro gs op ⟨⟩
  exact h.elim

theorem Op.Lands.allowed {op : Op} {new : TaskId} (h : op.Lands new fs l)
    (opens : ∀ pushed op', op.Opens pushed op' → Q op') : l.Allowed Q := by
  cases h with
  | opens h =>
    rintro gs op' ⟨⟩
    exact opens _ _ h
  | waits | turn | timed | limited => nofun
  | answers h => exact Landing.allowed_end h.simple.2

namespace World
variable {w : World} {t : TaskId} {ks : List Slot}

theorem Acted.allowed {i : Nat} {u : Update} {todo : List Action} (h : Acted i u todo fs l) (allows : Allows A Q)
    (does : ∀ a ∈ todo, A a) : l.Allowed Q := by
  cases h with
  | through | fails | turn | timed | skips => nofun
  | edits _ mem =>
    rintro gs op ⟨⟩
    exact allows.edit _ _ (does _ mem)
  | closes _ mem =>
    rintro gs op ⟨⟩
    exact allows.close _ (does _ mem)
  | asks _ mem =>
    rintro gs op ⟨⟩
    exact allows.ask _ (does _ mem)

theorem Killed.allowed {p : ProcessId} {why : KillReason} (h : Killed p why fs l) : l.Allowed Q := by
  cases h <;> nofun

theorem Turn.allowed (h : Turn w fs s l) (allows : Allows A Q) (subscribers : ∀ y ∈ w.subscribers, y.Does A)
    (frames : ∀ f ∈ fs, f.Does A) (opens : ∀ op pushed op', s = .start op → op.Opens pushed op' → Q op') :
    l.Allowed Q := by
  cases h with
  | begins h => exact h.allowed fun pushed op' => opens _ pushed op' rfl
  | opens _ h =>
    rintro gs op ⟨⟩
    exact allows.opens _ _ _ h
  | pops _ _ ends => exact Landing.allowed_end ends
  | told _ _ h =>
    cases h with
    | script _ mem acted => exact acted.allowed allows (subscribers _ (List.mem_of_getElem? mem) _)
    | through | stale | clients | nobody => nofun
  | acted h => exact h.allowed allows (frames _ List.mem_cons_self)
  | killed h | reaped h | killedNow _ h | lost _ _ h => exact h.allowed
  | done | waits | late | hurried | untold | failed | stopped | ran | waited | heeded | unreaped | faulted => nofun

/-- A step leaves subscribers at work that do what is allowed, and begins only what may be begun. -/
theorem Next.allowed (h : Next w t fs s l ks) (allows : Allows A Q) (given : ∀ y ∈ w.subscribers, y.IsPublic)
    (asked : ∀ i u todo, .acting i u todo ∈ fs → ∀ op, .ask op ∈ todo → op.IsPublic)
    (subscribers : ∀ y ∈ w.subscribers, y.Does A) (frames : ∀ f ∈ fs, f.Does A) :
    (∀ f ∈ l.frames, f.Does A) ∧
      ((∀ op pushed op', s = .start op → op.Opens pushed op' → Q op') → l.Allowed Q) := by
  have below : ∀ {f : Frame} {fs : List Frame}, (∀ g ∈ f :: fs, g.Does A) → ∀ g ∈ fs, g.Does A :=
    fun all g hg => all g (List.mem_cons_of_mem _ hg)
  have compiles {gs : List Frame} {text : String} : (Landing.go gs (.start (.compile text))).Allowed Q := by
    rintro _ _ ⟨⟩
    exact allows.compile _
  cases h with
  | turn _ h => exact ⟨(h.keeps (kept_does subscribers) given asked frames).1, h.allowed allows subscribers frames⟩
  | edits => exact ⟨all_cons trivial (all_cons trivial frames), nofun⟩
  | misnamed => exact ⟨frames, nofun⟩
  | closes h =>
    cases h with
    | through ends => exact ⟨frames, fun _ => Landing.allowed_end ends⟩
    | waits => exact ⟨all_cons trivial frames, nofun⟩
  | rests h =>
    rcases h with rfl | ⟨n, rfl⟩
    · exact ⟨all_cons trivial frames, nofun⟩
    · exact ⟨all_cons trivial frames, nofun⟩
  | quieted h =>
    rcases h with ⟨-, rfl⟩ | ⟨-, rfl | rfl⟩
    · exact ⟨below frames, nofun⟩
    · exact ⟨all_cons trivial (below frames), nofun⟩
    · exact ⟨all_cons trivial (below frames), fun _ => compiles⟩
  | called h =>
    rcases h with ⟨-, rfl⟩ | ⟨-, rfl⟩
    · exact ⟨below frames, nofun⟩
    · exact ⟨all_cons trivial (below frames), fun _ => compiles⟩
  | settles => exact ⟨all_cons trivial (below frames), nofun⟩
  | abandons | leaves | drops | lets | breaks => exact ⟨below frames, nofun⟩

/-! ### Whole states -/

/-- Subscribers do only what `A` allows, a task begins only with what `Q` allows, and only what `R` allows is begun
at all. -/
structure Licensed (A : Action → Prop) (Q R : Op → Prop) (w : World) : Prop where
  subscribers : ∀ y ∈ w.subscribers, y.Does A
  tasks : Stacked (Frame.Does A) (Signal.Allowed Q) w.tasks
  running : ∀ t fs s, w.current = some (t, fs, s) → (∀ f ∈ fs, f.Does A) ∧ s.Allowed R

/-- Whatever steps begin may be begun, if what they begin it from may be. -/
structure Closed (A : Action → Prop) (Q R : Op → Prop) : Prop where
  allows : Allows A R
  more : ∀ op, Q op → R op
  opens : ∀ op pushed op', R op → op.Opens pushed op' → R op'
  together : ∀ ops, R (.together ops) → ∀ op ∈ ops, Q op
  follow : ∀ p, Q (.follow p)
  background : ∀ r, Q (.background r)

variable {R : Op → Prop} {v : World}

theorem IsNew.licensed (new : w.IsNew) (subscribers : ∀ y ∈ w.subscribers, y.Does A) : w.Licensed A Q R where
  subscribers := subscribers
  tasks := by simp [Stacked, new.tasks]
  running := by simp [new.current]

theorem allowed_calm (s : Signal) (calm : s.IsCalm) : s.Allowed Q := calm.ends.allowed

namespace Licensed

theorem move (h : w.Licensed A Q R) (closed : Closed A Q R) (sane : w.Sane) (running : w.current = some (t, fs, s)) :
    (w.move t fs s).Licensed A Q R := by
  obtain ⟨frames, begins⟩ := h.running t fs s running
  obtain ⟨x, l, deeds, next, eq⟩ := sane.reaches running
  obtain ⟨left, starts⟩ := next.allowed closed.allows sane.subscribers (asked_public (sane.running t fs s running).1)
    h.subscribers frames
  have started : l.Allowed R := by
    refine starts ?_
    rintro op pushed op' rfl
    exact closed.opens op pushed op' begins
  have spawned : ∀ op, w.Begins op → Q op := by
    rintro op (⟨running', mem, -⟩ | ⟨p⟩ | -)
    · cases running.symm.trans running'
      exact closed.together _ begins _ mem
    · exact closed.follow p
    · exact closed.background _
  rw [eq]
  refine ⟨?_, land_stacked allowed_calm x t (stacked_grown allowed_calm deeds.grown h.tasks spawned) left, ?_⟩
  · rw [subscribers_land, deeds.subscribers]
    exact h.subscribers
  · rw [land_current]
    intro u gs s' now
    cases l with
    | go =>
      cases now
      refine ⟨left, ?_⟩
      cases s' with
      | start op => exact started gs op rfl
      | value | fault | cancelled => trivial
    | park | turn | timed | finish => cases now

theorem resume (h : w.Licensed A Q R) (closed : Closed A Q R) (t : TaskId) : (w.resume t).Licensed A Q R := by
  rcases w.resume_cases t with same | ⟨k, found, -, eq⟩
  · rw [same]
    exact h
  · obtain ⟨frames, signal⟩ := h.tasks k (List.mem_of_getElem? found)
    have grown : Grown (fun _ => False) w.tasks (w.modifyTask t Task.resumed).tasks :=
      .modify _ t (fun _ => rfl) fun _ => .inl rfl
    rw [eq]
    refine ⟨h.subscribers, stacked_grown allowed_calm grown h.tasks fun _ => False.elim, fun u fs s now => ?_⟩
    cases now
    refine ⟨frames, ?_⟩
    split
    · trivial
    · cases begun : k.signal with
      | start op =>
        rw [begun] at signal
        exact closed.more op signal
      | value | fault | cancelled => trivial

/-- Whatever happens, only what is allowed is done and begun. -/
theorem apply (h : w.Licensed A Q R) (closed : Closed A Q R) (sane : w.Sane) {i : Input} (brings : i.Brings A Q) :
    (w.apply i).Licensed A Q R := by
  have happens := w.apply_happens i
  generalize w.apply i = v at *
  cases happens with
  | moves running => exact h.move closed sane running
  | @resumes t rest => exact Licensed.resume (w := { w with queue := rest }) ⟨h.subscribers, h.tasks, h.running⟩ closed t
  | forgets => exact ⟨h.subscribers, h.tasks, h.running⟩
  | @launches op =>
    have begun : Q op := brings.begins op rfl
    have grown : Grown Q w.tasks (w.launch op).2.tasks := .append _ rfl rfl begun
    refine ⟨h.subscribers, stacked_grown allowed_calm grown h.tasks fun _ => id, fun t fs s now => ?_⟩
    cases now
    exact ⟨fun _ => nofun, closed.more op begun⟩
  | @subscribes y =>
    refine ⟨fun x mem => ?_, h.tasks, h.running⟩
    rcases List.mem_append.1 mem with old | new
    · exact h.subscribers x old
    · rw [List.mem_singleton.1 new]
      exact brings.subscribes y rfl
  | stirs stirred =>
    obtain ⟨-, subscribers, -, current, -⟩ := stirred.rest
    exact ⟨subscribers ▸ h.subscribers, stacked_grown allowed_calm stirred.grown h.tasks brings.queues,
      current ▸ h.running⟩

end Licensed
end World
end
end InkPreview.Live
