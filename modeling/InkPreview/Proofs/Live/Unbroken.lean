import InkPreview.Proofs.Live.Loyal
import InkPreview.Proofs.Live.Telling
/-!
Unbroken tellings. While nobody from outside cancels a task, and subscribers ask for nothing but edits and the closing
of the document they are told of, the task that tells of an update is not cancelled before the document is edited or
closed. Main statement: `run_unbroken`.
-/
namespace InkPreview.Live

/-- The frame belongs to the call of a subscriber with the update. -/
def Frame.CallsWith (y : Update) : Frame → Prop
  | .acting _ z todo => z = y ∧ ∀ a ∈ todo, a.IsLocal
  | .broadcasting .. | .sending .. => True
  | _ => False

/-- What the call of a subscriber with the update begins. -/
inductive Op.CallsWith (y : Update) : Op → Prop
  | send (c : ClientId) (m : Web.Message) : CallsWith y (.send c m)
  | edit (text : String) : CallsWith y (.edit (.name y.doc) text)
  | close : CallsWith y (.close (.name y.doc))

/-- The frames tell of the update above `base`, perhaps in the call of a subscriber. -/
def Tale (y : Update) (base fs : List Frame) : Prop :=
  ∃ more js, fs = more ++ .notifying y js :: base ∧ ∀ f ∈ more, f.CallsWith y

/-- A task that tells of the update above `base`, uncancelled. -/
structure Post.Tells (y : Update) (base : List Frame) (q : Post) : Prop where
  tale : Tale y base q.frames
  calm : q.signal ≠ .cancelled
  begins : ∀ op, q.signal = .start op → op.CallsWith y

/-- A landing that goes on telling, uncancelled. -/
structure Landing.Tells (y : Update) (base : List Frame) (l : Landing) : Prop where
  tale : Tale y base l.frames
  goes : ∀ gs s, l = .go gs s → s ≠ .cancelled ∧ ∀ op, s = .start op → op.CallsWith y

section
variable {y : Update} {base fs gs pushed : List Frame} {l : Landing} {s : Signal} {op : Op}

namespace Tale

theorem push {f : Frame} (h : Tale y base fs) (calls : f.CallsWith y) : Tale y base (f :: fs) := by
  obtain ⟨more, js, rfl, all⟩ := h
  exact ⟨f :: more, js, rfl, all_cons calls all⟩

theorem bottom (js : List Nat) : Tale y base (.notifying y js :: base) := ⟨[], js, rfl, nofun⟩

/-- What is on top of a telling: the telling itself, or the call of a subscriber. -/
theorem top (h : Tale y base fs) : (∃ js, fs = .notifying y js :: base) ∨ ∃ f gs, fs = f :: gs ∧
    f.CallsWith y ∧ Tale y base gs := by
  obtain ⟨more, js, rfl, all⟩ := h
  cases more with
  | nil => exact .inl ⟨js, rfl⟩
  | cons f more => exact .inr ⟨f, _, rfl, all f List.mem_cons_self, more, js, rfl, fun g mem => all g (List.mem_cons_of_mem f mem)⟩

theorem told (h : Tale y base fs) : ∃ js, .notifying y js ∈ fs := by
  obtain ⟨more, js, rfl, -⟩ := h
  exact ⟨js, by simp⟩

/-- A telling does not wait for a group. -/
theorem lone (h : Tale y base l.frames) (convenes : l.Convenes) : l.IsLone := by
  have apart : ∀ {fs : List Frame} {wait : Wait}, Tale y base fs → Convenes fs wait → ∀ g, wait ≠ .group g := by
    intro fs wait tale convenes g waits
    obtain ⟨f, gs, rfl, meets⟩ := convenes g waits
    rcases tale.top with ⟨js, eq⟩ | ⟨f', gs', eq, calls, -⟩
    · cases eq
      exact meets
    · cases eq
      cases f with
      | closing | idling | collecting => exact calls
      | _ => exact meets
  cases l with
  | park | timed => exact apart h convenes
  | go | turn | finish => trivial

end Tale

namespace Landing.Tells

theorem go (tale : Tale y base fs) (ends : s.IsEnd) (calm : s ≠ .cancelled) : (Landing.go fs s).Tells y base := by
  refine ⟨tale, ?_⟩
  rintro gs s' ⟨⟩
  refine ⟨calm, ?_⟩
  rintro op rfl
  exact ends.elim

theorem call (tale : Tale y base fs) (calls : op.CallsWith y) : (Landing.go fs (.start op)).Tells y base := by
  refine ⟨tale, ?_⟩
  rintro gs s' ⟨⟩
  refine ⟨nofun, ?_⟩
  rintro op' ⟨⟩
  exact calls

theorem park {wait : Wait} (tale : Tale y base fs) : (Landing.park fs wait).Tells y base := ⟨tale, nofun⟩

theorem turn (tale : Tale y base fs) : (Landing.turn fs).Tells y base := ⟨tale, nofun⟩

theorem timed {wait : Wait} {n : Nat} (tale : Tale y base fs) : (Landing.timed fs wait n).Tells y base := ⟨tale, nofun⟩

end Landing.Tells

/-! ### Steps of the telling -/

theorem Op.Lands.tells {c : ClientId} {m : Web.Message} {new : TaskId} (h : (Op.send c m).Lands new fs l)
    (tale : Tale y base fs) : l.Tells y base := by
  cases h with
  | opens h => cases h
  | waits h => cases h
  | limited h => cases h
  | turn h =>
    cases h
    exact .turn (tale.push trivial)
  | timed h =>
    cases h
    exact .timed (tale.push trivial)
  | answers h =>
    cases h with
    | sent | notSent => exact .go tale trivial nofun

namespace World
variable {w : World} {t : TaskId} {ks : List Slot}

theorem Acted.tells {i : Nat} {todo : List Action} (h : Acted i y todo fs l) (locals : ∀ a ∈ todo, a.IsLocal)
    (tale : Tale y base fs) : l.Tells y base := by
  have acting : ∀ {rest : List Action}, rest <:+ todo → Tale y base (.acting i y rest :: fs) :=
    fun shorter => tale.push ⟨rfl, fun a mem => locals a (shorter.subset mem)⟩
  cases h with
  | through | fails => exact .go tale trivial nofun
  | turn h => exact .turn (acting h)
  | timed h => exact .timed (acting h)
  | edits h => exact .call (acting h) (.edit _)
  | closes h => exact .call (acting h) .close
  | asks _ mem => exact (locals _ mem).elim
  | skips h => exact .go (acting h) trivial nofun

theorem Told.tells {js : List Nat} (h : Told w y base js l) (locals : ∀ z ∈ w.subscribers, z.IsLocal) :
    (∃ s, l = .go base s) ∨ l.Tells y base := by
  cases h with
  | through | stale => exact .inl ⟨_, rfl⟩
  | script _ mem acted => exact .inr (acted.tells (locals _ (List.mem_of_getElem? mem) _) (.bottom _))
  | clients => exact .inr (.go ((Tale.bottom _).push trivial) trivial nofun)
  | nobody => exact .inr (.go (.bottom _) trivial nofun)

/-- A turn at the end of what is above goes on with the telling, or back to `base`. -/
theorem Turn.tells (h : Turn w fs s l) (locals : ∀ z ∈ w.subscribers, z.IsLocal) (tale : Tale y base fs)
    (ends : s.IsEnd)
    (calm : s ≠ .cancelled) : (∃ s, l = .go base s) ∨ l.Tells y base := by
  rcases tale.top with ⟨js, rfl⟩ | ⟨f, gs, rfl, calls, below⟩
  · cases h with
    | begins => exact ends.elim
    | opens _ h | waits _ h => cases h
    | pops plain => exact plain.elim
    | told _ _ told => exact told.tells locals
    | untold => exact absurd rfl calm
    | killedNow => exact absurd rfl calm
    | faulted hf => obtain ⟨_, eq | ⟨_, eq⟩ | ⟨_, eq | eq⟩⟩ := hf <;> cases eq
  · right
    cases h with
    | begins => exact ends.elim
    | opens _ h =>
      cases h with
      | broadcasting => exact .call (below.push trivial) (.send _ _)
      | _ => exact calls.elim
    | waits _ h => cases h <;> exact calls.elim
    | pops _ _ ends' calm' => exact .go below ends' fun cancelled => calm (calm' cancelled)
    | acted h =>
      obtain ⟨rfl, locals⟩ := calls
      exact h.tells locals below
    | failed => exact .go below trivial nofun
    | faulted hf =>
      obtain ⟨_, rfl | ⟨_, rfl⟩ | ⟨_, rfl | rfl⟩⟩ := hf <;> exact calls.elim
    | untold | stopped | hurried | heeded | killedNow | unreaped => exact absurd rfl calm
    | told | ran | waited | lost | late | killed | reaped => exact calls.elim

/-- A step goes on with the telling, or back to `base`, unless it edits or closes the document. -/
theorem Next.tells (h : Next w t fs s l ks) (locals : ∀ z ∈ w.subscribers, z.IsLocal)
    (tells : Post.Tells y base ⟨fs, s, .running⟩)
    (still : ∀ doc text, s ≠ .start (.edit doc text)) (unclosed : ∀ doc, s ≠ .start (.close doc)) :
    (∃ s, l = .go base s) ∨ l.Tells y base := by
  obtain ⟨tale, calm, begins⟩ := tells
  have plain : ∀ f gs, fs = f :: gs → f.request? = none := by
    rintro f gs rfl
    rcases Tale.top tale with ⟨js, eq⟩ | ⟨f', gs', eq, calls, -⟩
    · cases eq
      rfl
    · cases eq
      cases f with
      | acting | broadcasting | sending => rfl
      | _ => exact calls.elim
  have turn : Turn w fs s l := by
    cases h with
    | turn _ h => exact h
    | edits | misnamed => exact absurd rfl (still _ _)
    | closes => exact absurd rfl (unclosed _)
    | rests => cases begins _ rfl
    | abandons | quieted | called | leaves | settles | drops | lets => cases plain _ _ rfl
    | breaks h => rcases h with rfl | rfl <;> cases plain _ _ rfl
  cases s with
  | start op =>
    cases begins op rfl with
    | edit => exact absurd rfl (still _ _)
    | close => exact absurd rfl (unclosed _)
    | send =>
      cases turn with
      | begins lands => exact .inr (lands.tells tale)
      | done h => cases tale.told.choose_spec
      | opens ends | waits ends | pops _ ends | told ends | waited ends | lost ends => exact ends.elim
  | value | fault | cancelled => exact turn.tells locals tale trivial calm

/-! ### The tasks that a step cancels -/

variable {ms : List Mark} {b : Bench} {u : TaskId} {i : Input} {q : Post}

/-- The task tells of the update, and nobody has asked it to cancel. -/
structure Unbroken (w : World) (t : TaskId) (y : Update) (base : List Frame) : Prop where
  unasked : w.Unasked t
  post : ∃ q, w.post? t = some q ∧ q.Tells y base

/-- A step that cancels the task that tells of an update edits or closes its document. -/
theorem Ready.strikes_outdates (h : Ready ms b w) (tells : ∃ q, w.post? t = some q ∧ q.Tells y base)
    (serves : Serves w.seats y.slot y.doc) (current : w.isCurrent y.slot y.generation = true) (strikes : w.Strikes t) :
    w.Outdates y := by
  obtain ⟨q, post, tells⟩ := tells
  obtain ⟨js, told⟩ := tells.tale.told
  rcases strikes with drops | ⟨u, p, fs, s, running⟩
  · obtain ⟨u, fs, op, doc, r, running, asks, registered, mine⟩ := h.enlisted.drops drops
    have here : y.slot = r.slot := (h.loyal.works t r q mine post (isOpen_of_registered registered)).frames _ told
    obtain ⟨a, seat, -, same⟩ := slotOf?_seat registered
    obtain ⟨a', seat', named⟩ := serves
    obtain rfl := Option.some.inj ((here ▸ seat').symm.trans seat)
    obtain rfl : doc = .name y.doc := name_eq_of_same (named ▸ same)
    exact ⟨current, u, fs, op, running, asks⟩
  · have tails := h.tailed.limiting u _ s p t running List.mem_cons_self
    have following : ∀ f ∈ q.frames, ∃ p, f = .following p := by
      by_cases runs : ∃ fs s, w.current = some (t, fs, s)
      · obtain ⟨fs, s, running⟩ := runs
        obtain rfl := Option.some.inj (post.symm.trans (h.flight.post?_running running))
        exact (tails.running fs s running).frames
      · rw [post?_other fun fs s running => runs ⟨fs, s, running⟩] at post
        obtain ⟨k, at_t, rfl⟩ := Option.map_eq_some_iff.1 post
        obtain ⟨k', at_t', follows⟩ := tails.task
        obtain rfl := Option.some.inj (at_t.symm.trans at_t')
        exact follows.frames
    obtain ⟨p, eq⟩ := following _ told
    cases eq

/-- A task that nobody has asked to cancel has not been cancelled, unless it is as it runs. -/
theorem Flight.unasked_calm (h : Flight ms b w) (unasked : w.Unasked t)
    (running : ∀ fs s, w.current = some (t, fs, s) → s ≠ .cancelled)
    (found : w.post? t = some q) : q.signal ≠ .cancelled := by
  by_cases runs : ∃ fs s, w.current = some (t, fs, s)
  · obtain ⟨fs, s, now⟩ := runs
    obtain rfl := Option.some.inj (found.symm.trans (h.post?_running now))
    exact running fs s now
  · rw [post?_other fun fs s now => runs ⟨fs, s, now⟩] at found
    obtain ⟨k, at_t, rfl⟩ := Option.map_eq_some_iff.1 found
    refine (unasked k at_t).told fun waits => runs ?_
    exact (h.steady.midst.agrees t).1 ⟨k, at_t, waits⟩

namespace Unbroken

/-- The step of a task that tells of an update goes on with that, or back. -/
theorem steps (h : w.Unbroken t y base) (ready : Ready ms b w) (serves : Serves w.seats y.slot y.doc)
    (current : w.isCurrent y.slot y.generation = true) (still : ¬ w.Outdates y)
    (running : w.current = some (t, fs, s)) :
    w.tick.Unbroken t y base ∨ ∃ s, w.tick.current = some (t, base, s) := by
  have next : Flight (ms ++ w.marks .tick) b w.tick := ready.flight.apply (i := .tick) trivial
  obtain ⟨q, post, tells⟩ := h.post
  have spared : ¬ w.Strikes t := fun strikes => still (ready.strikes_outdates h.post serves current strikes)
  obtain rfl := Option.some.inj (post.symm.trans (ready.flight.post?_running running))
  have lands : ∀ l ks, Next w t fs s l ks → (∃ s, l = .go base s) ∨ l.Tells y base := by
    intro l ks landing
    refine landing.tells ready.loyal.locals tells ?_ ?_
    · rintro doc text rfl
      cases tells.begins _ rfl
      exact still ⟨current, t, fs, _, running, .inl ⟨text, rfl⟩⟩
    · rintro doc rfl
      cases tells.begins _ rfl
      exact still ⟨current, t, fs, _, running, .inr rfl⟩
  have unasked : w.tick.Unasked t := by
    rw [tick_running running]
    refine ready.move_unasked running (ready.flight.there running) h.unasked spared fun l ks landing _ => ?_
    rcases lands l ks landing with ⟨s', rfl⟩ | tells'
    · exact ⟨trivial, nofun⟩
    · refine ⟨tells'.tale.lone landing.convenes, ?_⟩
      rintro r rfl
      obtain ⟨js, told⟩ := tells'.tale.told
      cases told
  obtain ⟨x, l, deeds, landing, eq⟩ := ready.flight.sane.reaches running
  have step : w.tick = x.land t l := (tick_running running).trans eq
  rcases lands l _ landing with ⟨s', rfl⟩ | tells'
  · exact .inr ⟨s', by rw [step, land_current]; rfl⟩
  · have there : t < x.tasks.length := Nat.lt_of_lt_of_le (ready.flight.there running) deeds.grown.length
    have goes : ∀ fs s, w.tick.current = some (t, fs, s) → l = .go fs s := by
      intro fs s now
      rw [step, land_current] at now
      cases l <;> simp_all [Landing.now]
    have calm := fun q => next.unasked_calm (q := q) unasked fun fs s now => (tells'.goes fs s (goes fs s now)).1
    rw [step] at next unasked calm ⊢
    obtain ⟨q', post', frames, signal⟩ := land_at next there
    refine .inl ⟨unasked, q', post', frames ▸ tells'.tale, calm q' post', fun op start => ?_⟩
    rcases signal with calm | ended | ⟨gs, s', landed, same⟩
    · rw [start] at calm
      exact calm.elim
    · obtain ⟨js, told⟩ := tells'.tale.told
      rw [← frames, (next.stage post').ended ended] at told
      cases told
    · exact (tells'.goes gs s' landed).2 op (same.symm.trans start)

/-- Others leave a task to its telling that they do not cancel. -/
theorem stays (h : w.Unbroken t y base) (ready : Ready ms b w) (allowed : i.IsPublic) (calm : ∀ f, i ≠ .cancel f)
    (spared : i = .tick → ¬ w.Strikes t) (steps : ¬ w.Steps i t) : (w.apply i).Unbroken t y base := by
  have next := ready.flight.apply allowed
  obtain ⟨q, post, tells⟩ := h.post
  obtain ⟨q', post', told⟩ := ready.flight.apply_post allowed post steps
  have there : t < w.tasks.length := ready.flight.post?_there post
  have goes_on : (w.apply i).Unasked t ∧ ∀ fs s, (w.apply i).current = some (t, fs, s) → s ≠ .cancelled := by
    have same : ∀ fs s, w.current = some (t, fs, s) → s ≠ .cancelled := by
      intro fs s running
      obtain rfl := Option.some.inj (post.symm.trans (ready.flight.post?_running running))
      exact tells.calm
    have happens := w.apply_happens i
    generalize w.apply i = v at *
    cases happens with
    | @moves u fs s running =>
      have other : u ≠ t := by
        rintro rfl
        exact steps ⟨rfl, fs, s, running⟩
      refine ⟨ready.move_unasked running there h.unasked (spared rfl) fun _ _ _ here => absurd here other, fun gs s' now => ?_⟩
      obtain ⟨x, l, -, -, eq⟩ := ready.flight.sane.reaches running
      rw [eq, land_current] at now
      exact absurd (Landing.now_eq now).1.symm other
    | @resumes u rest =>
      have waits : ({ w with queue := rest } : World).Unasked t := h.unasked
      refine ⟨waits.resume u, fun fs s now => ?_⟩
      rcases ({ w with queue := rest } : World).resume_cases u with idle | ⟨k, found, turn, eq⟩
      · rw [idle] at now
        exact same fs s now
      · rw [eq] at now
        obtain ⟨rfl, -, rfl⟩ : u = t ∧ _ ∧ _ = s := by simpa [World.go] using now
        have unasked := h.unasked k found
        rw [unasked.asked]
        exact unasked.told (by simp [turn])
    | forgets | subscribes => exact ⟨h.unasked, same⟩
    | launches =>
      refine ⟨h.unasked.append rfl ⟨rfl, by simp, fun idle => absurd rfl idle⟩, fun fs s now => ?_⟩
      obtain ⟨here, -⟩ : w.tasks.length = t ∧ _ := by simpa [World.launch] using now
      exact absurd there (here ▸ Nat.lt_irrefl _)
    | stirs stirred =>
      exact ⟨stirred.unasked calm h.unasked, fun fs s now => same fs s (stirred.rest.2.2.2.1.symm.trans now)⟩
  refine ⟨goes_on.1, q', post', ?_⟩
  have calm' := next.unasked_calm goes_on.1 goes_on.2 post'
  rcases told with rfl | ⟨-, frames, signal⟩
  · exact tells
  · refine ⟨frames ▸ tells.tale, calm', fun op start => ?_⟩
    rcases signal with same | calm
    · exact tells.begins op (same.symm.trans start)
    · rw [start] at calm
      exact calm.elim

theorem apply (h : w.Unbroken t y base) (ready : Ready ms b w) (allowed : i.IsPublic) (calm : ∀ f, i ≠ .cancel f)
    (serves : Serves w.seats y.slot y.doc) (current : w.isCurrent y.slot y.generation = true)
    (still : i = .tick → ¬ w.Outdates y) :
    (w.apply i).Unbroken t y base ∨ i = .tick ∧ ∃ s, (w.apply i).current = some (t, base, s) := by
  by_cases steps : w.Steps i t
  · obtain ⟨rfl, fs, s, running⟩ := steps
    exact (h.steps ready serves current (still rfl) running).imp id fun back => ⟨rfl, back⟩
  · exact .inl (h.stays ready allowed calm
      (fun tick strikes => still tick (ready.strikes_outdates h.post serves current strikes)) steps)

end Unbroken

/-! ### Runs -/

end World
end
end InkPreview.Live
