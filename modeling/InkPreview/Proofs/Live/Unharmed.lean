import InkPreview.Proofs.Live.Gentle
/-!
Unharmed tasks, which nobody has cancelled. In a gentle run a task that is not struck stays unharmed, and so
the request of an edit that still counts is carried on until its compile is answered. Main statement:
`Carrier.apply`.
-/
namespace InkPreview.Live

/-- A frame that does not stand for a cancellation under way. -/
def Frame.IsHale : Frame → Prop
  | .stoppingFollower _ why | .reaping _ why => why ≠ .cancelled
  | _ => True

structure Task.IsHale (k : Task) : Prop where
  asked : k.mustCancel = false
  signal : k.signal ≠ .cancelled
  result : k.result ≠ some .cancelled
  frames : ∀ f ∈ k.frames, f.IsHale

theorem Task.Handled.hale {hit : Prop} {k k' : Task} (h : k.Handled hit k') (spared : ¬ hit)
    (alone : ∀ g, k.wait ≠ .group g) (hale : k.IsHale) : k'.IsHale := by
  rcases h.spared with ⟨struck, -⟩ | ⟨asked, signal⟩
  · exact absurd struck spared
  · refine ⟨asked.trans hale.asked, ?_, h.result ▸ hale.result, h.frames ▸ hale.frames⟩
    rcases signal with same | ⟨v, eq⟩ | ⟨g, waits⟩
    · exact same ▸ hale.signal
    · simp [eq]
    · exact absurd waits (alone g)

/-- A landing on which nothing is cancelled. -/
def Landing.IsHale : Landing → Prop
  | .go fs s => (∀ f ∈ fs, f.IsHale) ∧ s ≠ .cancelled
  | .park fs _ | .turn fs | .timed fs _ _ => ∀ f ∈ fs, f.IsHale
  | .finish r => r ≠ .cancelled

theorem Landing.IsHale.leave {l : Landing} (h : l.IsHale) {k : Task} (hale : k.IsHale) : (l.leave k).IsHale := by
  cases l with
  | go => exact hale
  | park | turn | timed => exact ⟨hale.asked, by simp [Landing.leave], hale.result, h⟩
  | finish r =>
    refine ⟨rfl, hale.signal, ?_, by simp [Landing.leave]⟩
    simp only [Landing.leave, hale.asked, ne_eq, Option.some.injEq]
    cases r with
    | value v => simp [World.resultAsked]
    | fault f => simp [World.resultAsked]
    | cancelled => exact absurd rfl h

/-! ### Landings on which nothing is cancelled -/

section
variable {pushed fs : List Frame} {l : Landing}

theorem Op.Opens.hale {op op' : Op} (h : op.Opens pushed op') : ∀ f ∈ pushed, f.IsHale := by
  cases h <;> simp [Frame.IsHale]

theorem Op.Waits.hale {op : Op} {wait : Wait} (h : op.Waits pushed wait) : ∀ f ∈ pushed, f.IsHale := by
  cases h <;> simp [Frame.IsHale]

theorem Op.Sleeps.hale {op : Op} (h : op.Sleeps pushed) : ∀ f ∈ pushed, f.IsHale := by
  cases h <;> simp [Frame.IsHale]

theorem Op.Answers.hale {op : Op} {s : Signal} (h : op.Answers pushed s) :
    (∀ f ∈ pushed, f.IsHale) ∧ s ≠ .cancelled := by
  cases h <;> simp [Frame.IsHale]

theorem Frame.Opens.hale {f : Frame} {op : Op} (h : f.Opens pushed op) : ∀ f ∈ pushed, f.IsHale := by
  cases h <;> simp [Frame.IsHale]

theorem Frame.Waits.hale {f : Frame} {wait : Wait} (h : f.Waits pushed wait) : ∀ f ∈ pushed, f.IsHale := by
  cases h <;> simp [Frame.IsHale]

theorem Op.Lands.hale {op : Op} {new : TaskId} (h : op.Lands new fs l) (hale : ∀ f ∈ fs, f.IsHale) : l.IsHale := by
  cases h with
  | opens h => exact ⟨all_append h.hale hale, by simp⟩
  | waits h => exact all_append h.hale hale
  | turn h => exact all_append h.hale hale
  | timed h => exact all_append h.hale hale
  | limited => exact all_cons trivial hale
  | answers h => exact ⟨all_append h.hale.1 hale, h.hale.2⟩

namespace World
variable {w v : World} {t u : TaskId} {s : Signal} {ks : List Slot}

theorem Acted.hale {i : Nat} {u : Update} {todo : List Action} (h : Acted i u todo fs l)
    (hale : ∀ f ∈ fs, f.IsHale) : l.IsHale := by
  cases h with
  | through | fails => exact ⟨hale, by simp⟩
  | turn | timed => exact all_cons trivial hale
  | edits | closes | asks | skips => exact ⟨all_cons trivial hale, by simp⟩

theorem Told.hale {u : Update} {js : List Nat} (h : Told w u fs js l) (hale : ∀ f ∈ fs, f.IsHale) : l.IsHale := by
  cases h with
  | through | stale => exact ⟨hale, by simp⟩
  | script _ _ acted => exact acted.hale (all_cons trivial hale)
  | clients => exact ⟨all_cons trivial (all_cons trivial hale), by simp⟩
  | nobody => exact ⟨all_cons trivial hale, by simp⟩

theorem Killed.hale {p : ProcessId} {why : KillReason} (h : Killed p why fs l) (late : why ≠ .cancelled)
    (hale : ∀ f ∈ fs, f.IsHale) : l.IsHale := by
  cases h with
  | timedOut => exact ⟨hale, by simp⟩
  | cancelled cancelled => exact absurd cancelled late
  | turn | timed => exact all_cons late hale

/-- A task that is not cancelled, and waits for no follower that was, goes on without a cancellation. -/
theorem Turn.hale (h : Turn w fs s l) (calm : s ≠ .cancelled) (hale : ∀ f ∈ fs, f.IsHale)
    (safe : ∀ p f, .limited p f ∈ fs → w.wasCancelled f = false) : l.IsHale := by
  have below : ∀ {f : Frame} {gs : List Frame}, f :: gs = fs → ∀ g ∈ gs, g.IsHale := by
    rintro f gs rfl g mem
    exact hale g (List.mem_cons_of_mem f mem)
  cases h with
  | done eq =>
    rintro rfl
    exact calm eq
  | begins h => exact h.hale hale
  | opens _ h => exact ⟨all_append h.hale (below rfl), by simp⟩
  | waits _ h => exact all_append h.hale (below rfl)
  | pops _ _ _ calm' => exact ⟨below rfl, fun eq => calm (calm' eq)⟩
  | told _ _ h => exact h.hale (below rfl)
  | acted h => exact h.hale (below rfl)
  | failed | ran | waited | faulted => exact ⟨below rfl, by simp⟩
  | lost _ stopped => simp [safe _ _ List.mem_cons_self] at stopped
  | late => exact all_cons (by simp [Frame.IsHale]) (below rfl)
  | killed h => exact h.hale (hale _ List.mem_cons_self) (below rfl)
  | reaped h => exact h.hale (hale _ List.mem_cons_self) (below rfl)
  | untold | stopped | hurried | killedNow | heeded | unreaped => exact absurd rfl calm

theorem Next.hale (h : Next w t fs s l ks) (noClose : ∀ doc, s ≠ .start (.close doc)) (calm : s ≠ .cancelled)
    (hale : ∀ f ∈ fs, f.IsHale) (safe : ∀ p f, .limited p f ∈ fs → w.wasCancelled f = false) : l.IsHale := by
  have below : ∀ {f : Frame} {gs : List Frame}, f :: gs = fs → ∀ g ∈ gs, g.IsHale := by
    rintro f gs rfl g mem
    exact hale g (List.mem_cons_of_mem f mem)
  cases h with
  | turn _ h => exact h.hale calm hale safe
  | edits => exact ⟨all_cons trivial (all_cons trivial hale), by simp⟩
  | misnamed => exact ⟨hale, by simp⟩
  | closes => exact absurd rfl (noClose _)
  | rests h =>
    rcases h with rfl | ⟨n, rfl⟩
    · exact all_cons trivial hale
    · exact all_cons trivial hale
  | quieted h =>
    rcases h with ⟨-, rfl⟩ | ⟨-, rfl | rfl⟩
    · exact ⟨below rfl, by simp⟩
    · exact all_cons trivial (below rfl)
    · exact ⟨all_cons trivial (below rfl), by simp⟩
  | called h =>
    rcases h with ⟨-, rfl⟩ | ⟨-, rfl⟩
    · exact ⟨below rfl, by simp⟩
    · exact ⟨all_cons trivial (below rfl), by simp⟩
  | settles => exact ⟨all_cons trivial (below rfl), by simp⟩
  | drops | breaks => exact ⟨below rfl, by simp⟩
  | abandons | leaves | lets => exact absurd rfl calm

/-! ### Unharmed tasks -/

/-- Nobody has cancelled the task. -/
structure Unharmed (w : World) (u : TaskId) : Prop where
  task : ∃ k, w.tasks[u]? = some k ∧ k.IsHale
  running : ∀ fs s, w.current = some (u, fs, s) → (∀ f ∈ fs, f.IsHale) ∧ s ≠ .cancelled

theorem Unharmed.not_cancelled (h : w.Unharmed u) : w.wasCancelled u = false := by
  obtain ⟨k, found, hale⟩ := h.task
  unfold wasCancelled
  rw [found]
  cases result : k.result with
  | none => simp [result]
  | some r =>
    cases r with
    | value | fault => simp [result]
    | cancelled => exact absurd result hale.result

theorem HasDuty.unique {d d' : Duty} (h : w.HasDuty u d) (h' : w.HasDuty u d') : d = d' := by
  obtain ⟨k, found, duty⟩ := h
  obtain ⟨k', found', duty'⟩ := h'
  obtain rfl := Option.some.inj (found.symm.trans found')
  exact Option.some.inj (duty.symm.trans duty')

/-- The task waits for no group. -/
def Alone (w : World) (u : TaskId) : Prop := ∀ k g, w.tasks[u]? = some k → k.wait ≠ .group g

theorem Suited.alone {d : Duty} (h : w.Suited d) (duty : w.HasDuty u d) : w.Alone u := by
  obtain ⟨k', found', duty⟩ := duty
  intro k g found
  obtain rfl := Option.some.inj (found.symm.trans found')
  exact (h.suits u k found duty).wait g

variable {ms : List Mark} {b : Bench} {d : Duty}

theorem Unharmed.treated (h : w.Unharmed u) (alone : w.Alone u)
    (treats : Treats (fun _ => False) w.tasks v.tasks) (current : v.current = w.current) : v.Unharmed u := by
  obtain ⟨k, found, hale⟩ := h.task
  obtain ⟨k', found', handled⟩ := treats.old u k found
  exact ⟨⟨k', found', handled.hale id (alone k · found) hale⟩, current ▸ h.running⟩

/-- Someone else's step leaves a task unharmed that it does not strike. -/
theorem Unharmed.spared (h : w.Unharmed u) (alone : w.Alone u) (moved : w.Moved v t l)
    (other : u ≠ t) (spared : ¬ w.Strikes u) : v.Unharmed u := by
  obtain ⟨k, found, hale⟩ := h.task
  obtain ⟨k', found', handled⟩ := moved.old u k other found
  refine ⟨⟨k', found', handled.hale spared (alone k · found) hale⟩, fun fs s running => ?_⟩
  exact absurd (Landing.now_eq (moved.current.symm.trans running)).1 other

theorem Unharmed.landed (h : w.Unharmed t) (alone : w.Alone t) (moved : w.Moved v t l)
    (spared : ¬ w.Strikes t) : ∃ k, k.IsHale ∧ v.tasks[t]? = some (l.leave k) := by
  obtain ⟨k, found, sound⟩ := h.task
  obtain ⟨k', k'', handled, found', left⟩ := moved.own k found
  have sound' := handled.hale spared (alone k · found) sound
  rcases left with rfl | ⟨must, -⟩
  · exact ⟨k', sound', found'⟩
  · simp [sound'.asked] at must

theorem Unharmed.stepped (h : w.Unharmed t) (alone : w.Alone t) (moved : w.Moved v t l)
    (spared : ¬ w.Strikes t) (hale : l.IsHale) : v.Unharmed t := by
  obtain ⟨k, sound, found⟩ := h.landed alone moved spared
  refine ⟨⟨_, found, hale.leave sound⟩, fun fs s running => ?_⟩
  obtain ⟨-, rfl⟩ := Landing.now_eq (moved.current.symm.trans running)
  exact hale

theorem Unharmed.resume (h : w.Unharmed u) (t : TaskId) : (w.resume t).Unharmed u := by
  obtain ⟨k, found, hale⟩ := h.task
  rcases w.resume_cases t with same | ⟨k', found', -, eq⟩
  · rw [same]
    exact h
  · rw [eq]
    refine ⟨?_, fun fs s running => ?_⟩
    · by_cases here : t = u
      · subst here
        exact ⟨k.resumed, by simp [go, modifyTask, found], ⟨rfl, hale.signal, hale.result, hale.frames⟩⟩
      · exact ⟨k, by simp [go, modifyTask, here, found], hale⟩
    · obtain ⟨rfl, rfl, rfl⟩ : t = u ∧ k'.frames = fs ∧ _ = s := by simpa [go] using running
      obtain rfl := Option.some.inj (found.symm.trans found')
      refine ⟨hale.frames, ?_⟩
      rw [hale.asked]
      exact hale.signal

/-- What is cancelled by nobody from outside stays unharmed, as long as it is not struck and takes no step that
cancels it. -/
theorem Unharmed.apply (h : w.Unharmed u) (flight : Flight ms b w) (alone : w.Alone u) {i : Input}
    (contained : i = .tick → w.Contained) (calm : ∀ v, i ≠ .cancel v) (spared : i = .tick → ¬ w.Strikes u)
    (own : ∀ fs s l ks, i = .tick → w.current = some (u, fs, s) → Next w u fs s l ks → l.IsHale) :
    (w.apply i).Unharmed u := by
  have happens := w.apply_happens i
  generalize w.apply i = v at happens
  cases happens with
  | @moves t fs s running =>
    obtain ⟨l, ks, next, moved⟩ := (contained rfl).moved flight running
    by_cases here : u = t
    · subst here
      exact h.stepped alone moved (spared rfl) (own fs s l ks rfl running next)
    · exact h.spared alone moved here (spared rfl)
  | @resumes t rest idle =>
    have taken : ({ w with queue := rest } : World).Unharmed u := ⟨h.task, h.running⟩
    exact taken.resume t
  | forgets | subscribes => exact ⟨h.task, h.running⟩
  | launches idle =>
    obtain ⟨k, found, hale⟩ := h.task
    refine ⟨⟨k, getElem?_concat_iff.2 (.inl found), hale⟩, fun fs s running => ?_⟩
    obtain ⟨rfl, -, -⟩ : w.tasks.length = u ∧ _ := by simpa [World.launch] using running
    exact absurd (List.getElem?_eq_some_iff.1 found).1 (Nat.lt_irrefl _)
  | stirs stirs => exact h.treated alone (stirs.treats calm) stirs.rest.2.2.2.1

/-! ### Who follows a process -/

/-- A task that follows a process goes on unharmed, unless the task it does that for stops it. -/
theorem Unharmed.follower {f : TaskId} (h : w.Unharmed f) (flight : Flight ms b w) (suited : w.Suited (.follow t))
    (duty : w.HasDuty f (.follow t)) {i : Input} (contained : i = .tick → w.Contained) (calm : ∀ v, i ≠ .cancel v)
    (spared : i = .tick → ¬ w.Strikes f) : (w.apply i).Unharmed f := by
  refine h.apply flight (suited.alone duty) contained calm spared fun fs s l ks _ running next => ?_
  obtain ⟨k, found, of_k⟩ := duty
  have suits := suited.running f fs s k running found of_k
  obtain ⟨hale, calm⟩ := h.running fs s running
  refine next.hale (fun doc eq => ?_) calm hale fun p g mem => ?_
  · obtain ⟨p, eq⟩ := suits.begins (.close doc) eq
    cases eq
  · obtain ⟨q, eq⟩ := suits.frames _ mem
    cases eq

/-- In a gentle run nobody but the task it does that for stops it. -/
theorem Gentle.spares_follower {f : TaskId} (h : w.Gentle) (duty : w.HasDuty f (.follow t))
    (apart : ∀ fs s, w.current ≠ some (t, fs, s)) : ¬ w.Strikes f := by
  rintro (drops | ⟨t', p, fs, s, running⟩)
  · obtain ⟨x, works, -⟩ := h.drops drops
    cases duty.unique works
  · cases duty.unique (h.limiting t' _ s p f running List.mem_cons_self)
    exact apart _ s running

end World
end
end InkPreview.Live
