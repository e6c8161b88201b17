import InkPreview.Proofs.Live.Unharmed
/-!
Carriers. The task of an edit carries its request through the quiet time, the queue of the lock and the
compile. In a gentle run it does so for as long as the edit counts and its compile has not been answered.
Main statement: `Carrier.apply`.
-/
namespace InkPreview.Live

/-- The request that a task is at work for, which shows at the bottom of its stack. -/
def Post.request? (q : Post) : Option Request :=
  match q.frames.getLast?, q.signal with
  | some f, _ => f.request?
  | none, .start (.background r) => some r
  | none, _ => none

theorem request?_above {pre : List Frame} {f : Frame} {s : Signal} {wait : Wait} :
    (⟨pre ++ [f], s, wait⟩ : Post).request? = f.request? := by
  simp [Post.request?]

/-- Above the bottom of a stack nothing counts. -/
theorem request?_frames {q q' : Post} (frames : q'.frames = q.frames) (busy : q.frames ≠ []) :
    q'.request? = q.request? := by
  obtain ⟨f, bottom⟩ : ∃ f, q.frames.getLast? = some f := ⟨_, List.getLast?_eq_some_getLast busy⟩
  simp [Post.request?, frames, bottom]

theorem request?_plain {fs : List Frame} {s : Signal} {wait : Wait} (plain : Plain fs)
    (other : ∀ r, s ≠ .start (.background r)) (r : Request) : (⟨fs, s, wait⟩ : Post).request? ≠ some r := by
  unfold Post.request?
  split
  · rename_i f _ bottom
    simp [plain _ (List.mem_of_getLast? bottom)]
  · rename_i x _ begins
    exact absurd begins (other x)
  · simp

/-- What a task is at once it has landed. -/
def Landing.post : Landing → Post
  | .go fs s => ⟨fs, s, .running⟩
  | .park fs wait | .timed fs wait _ => ⟨fs, .value .unit, wait⟩
  | .turn fs => ⟨fs, .value .unit, .turn⟩
  | .finish r => ⟨[], r.signal, .ended⟩

theorem Landing.post_frames (l : Landing) : l.post.frames = l.frames := by
  cases l <;> rfl

/-- The task is at work for the request. -/
structure Post.Carries (q : Post) (r : Request) : Prop where
  request : q.request? = some r
  out : q.wait ≠ .ended

namespace Post.Carries
variable {r x : Request} {f : Frame} {pre : List Frame} {s : Signal} {wait : Wait}

theorem above (h : (⟨pre ++ [f], s, wait⟩ : Post).Carries r) (of_f : f.request? = some x) : x = r :=
  Option.some.inj (of_f.symm.trans (request?_above.symm.trans h.request))

theorem bottom (h : (⟨[f], s, wait⟩ : Post).Carries r) (of_f : f.request? = some x) : x = r :=
  Option.some.inj (of_f.symm.trans h.request)

end Post.Carries

theorem Landing.Compiling.carries {l : Landing} {r : Request} (h : l.Compiling [.holding r]) : l.post.Carries r := by
  cases h with
  | go | turn => exact ⟨request?_above, by simp [Landing.post]⟩
  | park => exact ⟨request?_above, by simp [Landing.post]⟩
  | timed _ _ _ waits =>
    refine ⟨request?_above, ?_⟩
    rcases waits with rfl | ⟨f, rfl⟩
    · simp [Landing.post]
    · simp [Landing.post]

section
variable {ms : List Mark} {b : Bench} {fs : List Frame} {l : Landing} {r : Request} {p : ProcessId} {f : TaskId}

/-- Unless it has been cancelled, a task is at work for the edit whose text it is to compile. -/
theorem Stage.mine {t : TaskId} {q : Post} (h : Stage ms b t q) (carries : q.Carries r) (calm : q.signal ≠ .cancelled) :
    Mine ms t r := by
  cases h with
  | plain plain other => exact absurd carries.request (request?_plain plain other r)
  | fresh mine => exact Option.some.inj carries.request ▸ mine
  | finished => exact absurd rfl carries.out
  | quiet mine | rested mine | queueing mine | called mine | asked mine => exact carries.bottom rfl ▸ mine
  | dropped | leaving => exact absurd rfl calm
  | holding mine => exact carries.above rfl ▸ mine

/-- A task that is at work waits for a process with a limit at the top of its stack alone. -/
theorem Stage.limits {t : TaskId} {s : Signal} {wait : Wait} (h : Stage ms b t ⟨fs, s, wait⟩)
    (carries : (⟨fs, s, wait⟩ : Post).Carries r) (mem : .limited p f ∈ fs) :
    fs = [.limited p f, .holding r] ∧ s.IsEnd := by
  cases h with
  | plain plain other => exact absurd carries.request (request?_plain plain other r)
  | fresh | finished => cases mem
  | quiet | rested | dropped | queueing | called | leaving | asked => simp at mem
  | holding mine compiles parked loose begun =>
    obtain rfl := carries.above rfl
    cases compiles with
    | limited q g ends =>
      obtain ⟨rfl, rfl⟩ : p = q ∧ f = g := by simpa using mem
      exact ⟨rfl, ends⟩
    | answered | crashed | cancelled | followed | running | following | stopping | reaping => simp at mem

/-- Only a task that is runnable or runs may still have to begin its work. -/
theorem Stage.begun {t : TaskId} {q : Post} (h : Stage ms b t q) (carries : q.Carries r)
    (asleep : ¬ q.wait.IsUp) : q.frames ≠ [] := by
  cases h with
  | plain plain other => exact absurd carries.request (request?_plain plain other r)
  | fresh _ _ up => exact absurd up asleep
  | finished => exact absurd rfl carries.out
  | quiet | rested | dropped | queueing | called | leaving | asked | holding => simp

namespace World
variable {w v : World} {t u : TaskId} {s : Signal} {ks : List Slot}

/-- A task that waits with a limit has the process followed for itself, also while it runs. -/
theorem Attended.follows (h : w.Attended) (flight : Flight ms b w) {q : Post} (found : w.post? t = some q)
    (mem : .limited p f ∈ q.frames) : w.HasDuty f (.follow t) := by
  by_cases runs : ∃ fs s, w.current = some (t, fs, s)
  · obtain ⟨fs, s, running⟩ := runs
    obtain rfl := Option.some.inj (found.symm.trans (flight.post?_running running))
    exact h.limiting t fs s p f running mem
  · rw [post?_other fun fs s running => runs ⟨fs, s, running⟩] at found
    obtain ⟨k, at_t, rfl⟩ := Option.map_eq_some_iff.1 found
    exact h.limited t k p f at_t mem

theorem IsAside.plain {f : Frame} (h : IsAside (f :: fs) s) (ends : s.IsEnd) : f.request? = none := by
  cases s with
  | start => exact ends.elim
  | value | fault | cancelled => exact h f rfl

theorem Next.aside_turn (h : Next w t fs s l ks) (aside : IsAside fs s) : Turn w fs s l := by
  cases h with
  | turn _ h => exact h
  | edits | misnamed => exact absurd rfl (aside.2.1 _ _)
  | closes => exact absurd rfl (aside.2.2 _)
  | rests =>
    rcases aside.1 with given | ⟨p, eq⟩
    · cases given
    · cases eq
  | abandons | quieted | called | leaves | lets => cases aside.plain trivial
  | drops ends => cases aside.plain ends
  | @settles _ _ _ o _ answered =>
    have ends : (answerSignal o).IsEnd := by cases o <;> trivial
    cases aside.plain (answered ▸ ends)
  | breaks h =>
    have plain := aside.plain trivial
    rcases h with rfl | rfl
    · cases plain
    · cases plain

/-- The wait for a process with a limit comes to its end in one step. -/
theorem Turn.unlimited (h : Turn w (.limited p f :: fs) s l) (ends : s.IsEnd) {q : ProcessId} {g : TaskId}
    (mem : .limited q g ∈ l.frames) : .limited q g ∈ fs := by
  cases h with
  | begins => exact ends.elim
  | opens _ h => cases h
  | waits _ h => cases h
  | pops plain => exact plain.elim
  | waited | heeded | faulted => exact mem
  | lost _ _ h => exact h.limits mem
  | late | hurried => simpa [Landing.frames] using mem
  | killedNow hf => rcases hf with eq | ⟨_, eq⟩ <;> cases eq

/-- Unless it has the answer of its compile, a task that has not been cancelled carries the request of an
edit that counts through its step. -/
theorem Next.carries (h : Next w t fs s l ks) (stage : Stage ms b t ⟨fs, s, .running⟩)
    (carries : (⟨fs, s, .running⟩ : Post).Carries r) (calm : s ≠ .cancelled)
    (current : fs = [.quiet r] ∨ fs = [.queueing r] → w.isCurrent r.slot r.generation = true) :
    (fs = [.holding r] ∧ ∃ o, s = answerSignal o) ∨ l.post.Carries r := by
  cases stage with
  | plain plain other => exact absurd carries.request (request?_plain plain other r)
  | @fresh x =>
    obtain rfl : x = r := Option.some.inj carries.request
    cases h with
    | turn aside =>
      rcases aside.1 with given | ⟨p, eq⟩
      · cases given
      · cases eq
    | rests h =>
      rcases h with rfl | ⟨n, rfl⟩
      · exact .inr ⟨rfl, by simp [Landing.post]⟩
      · exact .inr ⟨rfl, by simp [Landing.post]⟩
  | @rested x =>
    obtain rfl := carries.bottom rfl
    cases h with
    | turn aside => cases aside.plain trivial
    | quieted h =>
      rcases h with ⟨stale, -⟩ | ⟨-, rfl | rfl⟩
      · simp [stale] at current
      · exact .inr ⟨rfl, by simp [Landing.post]⟩
      · exact .inr ⟨rfl, by simp [Landing.post]⟩
  | @called x =>
    obtain rfl := carries.bottom rfl
    cases h with
    | turn aside => cases aside.plain trivial
    | called h =>
      rcases h with ⟨stale, -⟩ | ⟨-, rfl⟩
      · simp [stale] at current
      · exact .inr ⟨rfl, by simp [Landing.post]⟩
  | @asked x =>
    obtain rfl := carries.bottom rfl
    cases h.aside_turn ⟨.inl (.compile _), by simp, by simp⟩ with
    | begins lands => exact .inr lands.compiling.carries
    | opens ends | waits ends | pops _ ends => exact ends.elim
  | @holding x pre _ _ mine compiles =>
    obtain rfl := carries.above rfl
    have going (going : pre = [] → ¬ s.IsEnd) (aside : IsAside (pre ++ [.holding x]) s) : l.post.Carries x :=
      (compiles.turn going (h.aside_turn aside)).carries
    cases compiles with
    | answered o => exact .inl ⟨rfl, .ok o, rfl⟩
    | crashed e => exact .inl ⟨rfl, .error e, rfl⟩
    | cancelled => exact absurd rfl calm
    | followed p => exact .inr (going (by simp) ⟨.inr ⟨p, rfl⟩, by simp, by simp⟩)
    | running _ ends | following _ ends | limited _ _ ends | stopping _ _ ends | reaping _ _ ends =>
      exact .inr (going (by simp) (isAside_cons ends rfl))
  | dropped | leaving => exact absurd rfl calm

/-! ### Carriers -/

/-- The task is at work for the request, and nobody has cancelled it. -/
structure Carries (w : World) (t : TaskId) (r : Request) : Prop where
  unharmed : w.Unharmed t
  post : ∃ q, w.post? t = some q ∧ q.Carries r

/-- Nobody has cancelled who follows a process for it, either. -/
structure Carrier (w : World) (t : TaskId) (r : Request) : Prop where
  carries : w.Carries t r
  attended : ∀ q p f, w.post? t = some q → .limited p f ∈ q.frames → w.Unharmed f

variable {i : Input} {q : Post}

theorem Flight.stage (h : Flight ms b w) (found : w.post? t = some q) : Stage ms (w.bench w.current) t q :=
  h.steady.midst.orderly.stage t q found

/-- A task that takes no step carries on what it did. -/
theorem Flight.apply_carries (h : Flight ms b w) (allowed : i.IsPublic) (found : w.post? t = some q)
    (carries : q.Carries r) (unharmed : w.Unharmed t) (other : ¬ w.Steps i t) :
    ∃ q', (w.apply i).post? t = some q' ∧ q'.frames = q.frames ∧ q'.Carries r := by
  have flight := h.apply allowed
  obtain ⟨q', found', rfl | ⟨idle, frames, -⟩⟩ := h.apply_post allowed found other
  · exact ⟨q', found', rfl, carries⟩
  have busy : q.frames ≠ [] → q'.Carries r := by
    intro busy
    refine ⟨(request?_frames frames busy).trans carries.request, fun ended => busy ?_⟩
    exact frames ▸ (flight.stage found').ended ended
  by_cases turn : q.wait = .turn
  · have still : ∀ fs s, w.current ≠ some (t, fs, s) := by
      intro fs s running
      rw [h.post?_running running] at found
      cases found
      cases turn
    rw [post?_other still] at found
    obtain ⟨k, at_t, rfl⟩ := Option.map_eq_some_iff.1 found
    obtain ⟨k', at_t', hale⟩ := unharmed.task
    obtain rfl := Option.some.inj (at_t.symm.trans at_t')
    rcases h.apply_turn i at_t turn with stays | ⟨-, -, running⟩
    · exact ⟨k.post, stays.post (.inl turn) flight, rfl, carries⟩
    · refine ⟨_, flight.post?_running running, rfl, ?_, by simp⟩
      rw [hale.asked]
      exact carries.request
  · exact ⟨q', found', frames, busy ((h.stage found).begun carries fun up => up.elim turn idle)⟩

/-- A step that cancels the task of an edit puts the edits of its slot out of date. -/
theorem Gentle.drops_outdates (h : w.Gentle) (sane : w.Sane) {x : SlotId} {g : Nat} (drops : w.Drops t)
    (duty : w.HasDuty t (.edit x)) (before : w.isCurrent x g = true) : w.tick.isCurrent x g = false := by
  obtain ⟨y, duty', at_work⟩ := h.drops drops
  cases duty.unique duty'
  obtain ⟨a, seat, isOpen, generation⟩ := isCurrent_iff.1 before
  refine Bool.eq_false_iff.2 fun after => ?_
  obtain ⟨a', seat', isOpen', generation'⟩ := isCurrent_iff.1 after
  rcases at_work with ⟨u, fs, doc, text, running, registered⟩ | ⟨u, fs, doc, running, registered⟩
  · have here : (w.editBegun doc text).slot = x := by simp [editBegun, ensureSlot_of_some registered]
    have seats : w.tick.seats = (w.bumped doc).seats := by
      rw [tick_running running]
      exact seats_beginEdit u fs doc text
    obtain ⟨-, -, c, seat'', -, -, raised⟩ := bumped_seats sane.distinct doc text
    rw [here, ← seats, seat'] at seat''
    obtain rfl := Option.some.inj seat''
    have lower := editBegun_raises w doc text (a := a) (here ▸ seat)
    omega
  · obtain ⟨c, seat'', -, same⟩ := slotOf?_seat registered
    obtain ⟨c', shut, closed⟩ := sane.close_shuts running seat'' same
    obtain rfl := Option.some.inj (shut.symm.trans seat')
    simp [closed] at isOpen'

theorem Moved.post {k : Task} (h : w.Moved v t l) (flight : Flight ms b v) (found : v.tasks[t]? = some (l.leave k))
    (out : l.post.wait ≠ .ended) : v.post? t = some l.post := by
  cases l with
  | go => exact flight.post?_running h.current
  | park | turn | timed =>
    rw [post?_other (by simp [h.current, Landing.now]), found]
    rfl
  | finish => exact absurd rfl out

/-- A step that begins to wait for a process with a limit has the process followed by someone unharmed. -/
theorem Moved.attended (h : w.Moved (w.move t fs s) t l)
    (asked : ∀ k, w.tasks[t]? = some k → k.mustCancel = true → k.duty? ≠ none) (next : Next w t fs s l ks)
    (there : t < w.tasks.length) {k : Task} (found : (w.move t fs s).tasks[t]? = some (l.leave k))
    (new : .limited p f ∉ fs) (mem : .limited p f ∈ l.frames) : (w.move t fs s).Unharmed f := by
  rcases next.limits mem with old | ⟨text, n, rfl, -, rfl⟩
  · exact absurd old new
  · have waits : (w.beginCompile t fs text).tasks[t]?.map (·.frames) = some (.limited p f :: fs) :=
      congrArg (Option.map (·.frames)) found
    obtain ⟨-, k', at_f, handled⟩ := beginCompile_attended there asked h.current waits
    refine ⟨⟨k', at_f, handled.hale id (by simp) ⟨rfl, by simp, by simp, by simp⟩⟩, fun gs x running => ?_⟩
    cases (h.current.symm.trans running : (none : Option (TaskId × List Frame × Signal)) = _)

/-- A step that strikes nobody but others, and after which the task is still at work for the request, leaves it
unharmed there. -/
theorem Carrier.stepped (h : w.Carrier t r) (flight : Flight ms b w) (running : w.current = some (t, fs, s))
    (next : Next w t fs s l ks) (moved : w.Moved (w.move t fs s) t l) (alone : w.Alone t) (spared : ¬ w.Strikes t)
    (asked : ∀ k, w.tasks[t]? = some k → k.mustCancel = true → k.duty? ≠ none)
    (noClose : ∀ doc, s ≠ .start (.close doc)) (carries' : l.post.Carries r) :
    (w.move t fs s).Carrier t r ∧ (w.move t fs s).post? t = some l.post := by
  obtain ⟨⟨unharmed, q, found, carries⟩, attended⟩ := h
  obtain rfl := Option.some.inj (found.symm.trans (flight.post?_running running))
  have flight' : Flight (ms ++ w.marks .tick) b (w.apply .tick) := flight.apply trivial
  rw [show w.apply .tick = w.move t fs s from tick_running running] at flight'
  obtain ⟨hale, calm⟩ := unharmed.running fs s running
  have sound := next.hale noClose calm hale fun p f mem => (attended _ p f found mem).not_cancelled
  obtain ⟨k', -, landed⟩ := unharmed.landed alone moved spared
  have post := moved.post flight' landed carries'.out
  refine ⟨⟨⟨unharmed.stepped alone moved spared sound, _, post, carries'⟩, ?_⟩, post⟩
  intro q' p f found' mem
  obtain rfl := Option.some.inj (post.symm.trans found')
  rw [l.post_frames] at mem
  refine moved.attended asked next (flight.there running) landed (fun old => ?_) mem
  -- a task that has waited with a limit does so no more
  obtain ⟨rfl, ends⟩ := (flight.stage found).limits carries old
  simpa using (next.aside_turn (isAside_cons ends rfl)).unlimited ends mem

/-- Whatever happens gently, as long as the edit counts its task carries the request on, unless it has the
answer of the compile and takes the step that settles the edit. -/
theorem Carrier.apply (h : w.Carrier t r) (flight : Flight ms b w) (gentle : w.Gentle)
    (duty : w.HasDuty t (.edit r.slot)) (allowed : i.IsPublic) (soft : i.IsGentle)
    (before : w.isCurrent r.slot r.generation = true) (after : (w.apply i).isCurrent r.slot r.generation = true) :
    (w.apply i).Carrier t r ∨ i = .tick ∧ ∃ o, w.current = some (t, [.holding r], answerSignal o) := by
  obtain ⟨⟨unharmed, q, found, carries⟩, attended⟩ := h
  have spared : i = .tick → ¬ w.Strikes t := by
    rintro rfl (drops | ⟨u, p, fs, s, running⟩)
    · rw [show w.apply .tick = w.tick from rfl, gentle.drops_outdates flight.sane drops duty before] at after
      cases after
    · cases duty.unique (gentle.limiting u _ s p t running List.mem_cons_self)
  by_cases steps : w.Steps i t
  · obtain ⟨rfl, fs, s, running⟩ := steps
    obtain rfl := Option.some.inj (found.symm.trans (flight.post?_running running))
    rw [show w.apply .tick = w.move t fs s from tick_running running]
    have calm := (unharmed.running fs s running).2
    obtain ⟨l, ks, next, moved⟩ := gentle.contained.moved flight running
    rcases next.carries (flight.stage found) carries calm (fun _ => before) with ⟨rfl, o, rfl⟩ | carries'
    · exact .inr ⟨rfl, o, running⟩
    have alone := (gentle.suited _).alone duty
    obtain ⟨k, at_t, of_t⟩ := duty
    have noClose : ∀ doc, s ≠ .start (.close doc) := fun doc eq =>
      (gentle.running t fs s k _ running at_t of_t).begins _ eq
    have carrier : w.Carrier t r := ⟨⟨unharmed, _, found, carries⟩, attended⟩
    exact .inl (carrier.stepped flight running next moved alone (spared rfl) (gentle.asked t) noClose carries').1
  · have steps' : i = .tick → ∀ fs s, w.current ≠ some (t, fs, s) := fun tick fs s running =>
      steps ⟨tick, fs, s, running⟩
    have unharmed' := unharmed.apply flight ((gentle.suited _).alone duty) (fun _ => gentle.contained) soft.calm spared fun fs s l ks tick running _ =>
      absurd running (steps' tick fs s)
    obtain ⟨q', found', frames, carries'⟩ := flight.apply_carries allowed found carries unharmed steps
    refine .inl ⟨⟨unharmed', q', found', carries'⟩, fun x p f found'' mem => ?_⟩
    obtain rfl := Option.some.inj (found'.symm.trans found'')
    rw [frames] at mem
    have follows := gentle.attended.follows flight found mem
    exact (attended q p f found mem).follower flight (gentle.suited _) follows (fun _ => gentle.contained) soft.calm
      fun tick => gentle.spares_follower follows (steps' tick)

end World
end
end InkPreview.Live
