import InkPreview.Proofs.Live.Sane
/-!
Benches. The bench of a state is what turns on waiting: the locks of the slots, what every task is
at, the alarms and the time. On an orderly bench every request goes from its quiet time through the
queue of its lock to its compile, and no lock is held twice.
-/
namespace InkPreview.Live

/-- What a task is at. -/
structure Post where
  frames : List Frame
  signal : Signal
  wait : Wait

structure Bench where
  locks : List Lock
  posts : List Post
  alarms : List Alarm
  clock : Nat
  quiet : Int

/-- What a task has to do with locks, which shows at the bottom of its stack. -/
inductive Grip
  | free
  | queued (s : SlotId)
  | holds (s : SlotId)

def gripOf (fs : List Frame) : Grip :=
  match fs.getLast? with
  | some (.queueing r) => .queued r.slot
  | some (.holding r) => .holds r.slot
  | _ => .free

def Plain (fs : List Frame) : Prop := ∀ f ∈ fs, f.request? = none

theorem plain_nil : Plain [] := nofun

theorem gripOf_plain {fs : List Frame} (h : Plain fs) : gripOf fs = .free := by
  unfold gripOf
  cases last : fs.getLast? with
  | none => rfl
  | some f =>
    have plain := h f (List.mem_of_getLast? last)
    cases f with
    | queueing r => simp [Frame.request?] at plain
    | holding r => simp [Frame.request?] at plain
    | _ => rfl

@[simp] theorem gripOf_holding (pre : List Frame) (r : Request) :
    gripOf (pre ++ [.holding r]) = .holds r.slot := by
  simp [gripOf]

@[simp] theorem gripOf_queueing (r : Request) : gripOf [.queueing r] = .queued r.slot := rfl
@[simp] theorem gripOf_quiet (r : Request) : gripOf [.quiet r] = .free := rfl
@[simp] theorem gripOf_nil : gripOf [] = .free := rfl

/-! ### The course of a request -/

/-- The edit whose text the task is to compile. -/
def Mine (ms : List Mark) (t : TaskId) (r : Request) : Prop :=
  ∃ e, .edited e ∈ ms ∧ e.worker = some t ∧ e.slot = r.slot ∧ e.doc = .name r.doc ∧
    e.generation = r.generation ∧ e.text = r.text

/-- The quiet time after the edit of the task is over. -/
def Rested (ms : List Mark) (t : TaskId) (quiet : Int) (now : Nat) : Prop :=
  ∀ e, .edited e ∈ ms → e.worker = some t → e.time + quiet ≤ now

def HasStarted (ms : List Mark) (t : TaskId) : Prop := ∃ time r text, .started time t r text ∈ ms

/-- The frames above a held lock, and what moves them, once the compiler has been asked for. -/
inductive Compiles : List Frame → Signal → Prop
  | answered (o : Outcome) : Compiles [] (.value (.outcome o))
  | crashed (e : Fault) : Compiles [] (.fault e)
  | cancelled : Compiles [] .cancelled
  | followed (p : ProcessId) : Compiles [.running p] (.start (.follow p))
  | running (p : ProcessId) {s : Signal} (ends : s.IsEnd) : Compiles [.running p] s
  | following (p : ProcessId) {s : Signal} (ends : s.IsEnd) : Compiles [.following p, .running p] s
  | limited (p : ProcessId) (f : TaskId) {s : Signal} (ends : s.IsEnd) : Compiles [.limited p f] s
  | stopping (p : ProcessId) (why : KillReason) {s : Signal} (ends : s.IsEnd) :
      Compiles [.stoppingFollower p why] s
  | reaping (p : ProcessId) (why : KillReason) {s : Signal} (ends : s.IsEnd) :
      Compiles [.reaping p why] s

/-- Time has passed, and tasks have been added. -/
structure Bench.Before (b c : Bench) : Prop where
  quiet : c.quiet = b.quiet
  clock : b.clock ≤ c.clock
  posts : b.posts.length ≤ c.posts.length

theorem Bench.Before.refl (b : Bench) : b.Before b := ⟨rfl, Nat.le_refl _, Nat.le_refl _⟩

theorem Bench.Before.trans {a b c : Bench} (h : a.Before b) (h' : b.Before c) : a.Before c :=
  ⟨h'.quiet.trans h.quiet, Nat.le_trans h.clock h'.clock, Nat.le_trans h.posts h'.posts⟩

/-- A wait of a task that has not ended, for anything but a lock. -/
def Wait.IsFree (wait : Wait) : Prop := wait ≠ .ended ∧ ∀ s, wait ≠ .lock s

/-- Whether a task is runnable or runs. -/
def Wait.IsUp (wait : Wait) : Prop := wait = .turn ∨ wait = .running

/-- Where a task is on its course. Tasks without a request are anywhere. -/
inductive Stage (ms : List Mark) (b : Bench) (t : TaskId) : Post → Prop
  | plain {fs : List Frame} {s : Signal} {wait : Wait} (free : Plain fs)
      (other : ∀ r, s ≠ .start (.background r)) (loose : wait.IsFree) :
      Stage ms b t ⟨fs, s, wait⟩
  | fresh {r : Request} {wait : Wait} (mine : Mine ms t r) (new : ¬ HasStarted ms t) (up : wait.IsUp) :
      Stage ms b t ⟨[], .start (.background r), wait⟩
  | finished {s : Signal} : Stage ms b t ⟨[], s, .ended⟩
  | quiet {r : Request} {s : Signal} (mine : Mine ms t r) (new : ¬ HasStarted ms t)
      (due : ∀ a ∈ b.alarms, a.task = t → Rested ms t b.quiet a.due) :
      Stage ms b t ⟨[.quiet r], s, .alarm⟩
  | rested {r : Request} {v : Value} {wait : Wait} (mine : Mine ms t r) (new : ¬ HasStarted ms t)
      (rested : Rested ms t b.quiet b.clock) (up : wait.IsUp) :
      Stage ms b t ⟨[.quiet r], .value v, wait⟩
  | dropped {r : Request} {wait : Wait} (up : wait.IsUp) : Stage ms b t ⟨[.quiet r], .cancelled, wait⟩
  | queueing {r : Request} {s : Signal} (mine : Mine ms t r) (new : ¬ HasStarted ms t)
      (rested : Rested ms t b.quiet b.clock)
      (entry : ∃ l, b.locks[r.slot]? = some l ∧ (t, .waiting) ∈ l.queue) :
      Stage ms b t ⟨[.queueing r], s, .lock r.slot⟩
  | called {r : Request} {v : Value} {wait : Wait} (mine : Mine ms t r) (new : ¬ HasStarted ms t)
      (rested : Rested ms t b.quiet b.clock) (up : wait.IsUp)
      (entry : ∃ l, b.locks[r.slot]? = some l ∧ (t, .called) ∈ l.queue) :
      Stage ms b t ⟨[.queueing r], .value v, wait⟩
  | leaving {r : Request} {wait : Wait} (up : wait.IsUp) :
      Stage ms b t ⟨[.queueing r], .cancelled, wait⟩
  | asked {r : Request} (mine : Mine ms t r) (new : ¬ HasStarted ms t)
      (rested : Rested ms t b.quiet b.clock) :
      Stage ms b t ⟨[.holding r], .start (.compile r.text), .running⟩
  | holding {r : Request} {pre : List Frame} {s : Signal} {wait : Wait} (mine : Mine ms t r)
      (compiles : Compiles pre s) (parked : wait = .running ∨ pre ≠ [] ∧ s.IsEnd)
      (loose : wait.IsFree) (begun : ∃ time, .started time t r r.text ∈ ms) :
      Stage ms b t ⟨pre ++ [.holding r], s, wait⟩

/-! ### Order -/

structure Orderly (ms : List Mark) (b : Bench) : Prop where
  stage : ∀ t p, b.posts[t]? = some p → Stage ms b t p
  /-- Alarms are set for tasks that wait. -/
  set : ∀ a ∈ b.alarms, ∃ p, b.posts[a.task]? = some p ∧ (p.wait = .alarm ∨ ∃ f, p.wait = .follower f)
  nodup : ∀ (s : SlotId) l, b.locks[s]? = some l → (l.queue.map (·.1)).Nodup
  /-- Only the first in a queue is called, and only while the lock is free. -/
  first : ∀ (s : SlotId) l t, b.locks[s]? = some l → (t, .called) ∈ l.queue →
    l.held = false ∧ l.queue.head? = some (t, .called)
  queued : ∀ (s : SlotId) l t x, b.locks[s]? = some l → (t, x) ∈ l.queue →
    ∃ p, b.posts[t]? = some p ∧ gripOf p.frames = .queued s ∧ (x = .waiting → p.wait = .lock s)
  held : ∀ (t : TaskId) p s, b.posts[t]? = some p → gripOf p.frames = .holds s →
    ∃ l, b.locks[s]? = some l ∧ l.held = true
  alone : ∀ (t u : TaskId) p q s, b.posts[t]? = some p → b.posts[u]? = some q →
    gripOf p.frames = .holds s → gripOf q.frames = .holds s → t = u

theorem orderly_nil (ms : List Mark) (clock : Nat) (quiet : Int) : Orderly ms ⟨[], [], [], clock, quiet⟩ where
  stage := by simp
  set := by simp
  nodup := by simp
  first := by simp
  queued := by simp
  held := by simp
  alone := by simp

section
variable {ms ms' : List Mark} {b c : Bench} {t : TaskId} {p : Post}

theorem Stage.mono (h : Stage ms b t p)
    (entries : ∀ (s : SlotId) l x, b.locks[s]? = some l → (t, x) ∈ l.queue →
      ∃ l', c.locks[s]? = some l' ∧ (t, x) ∈ l'.queue)
    (alarms : ∀ a ∈ c.alarms, a.task = t → a ∈ b.alarms) (clock : b.clock ≤ c.clock)
    (same : c.quiet = b.quiet) : Stage ms c t p := by
  have later : Rested ms t b.quiet b.clock → Rested ms t c.quiet c.clock := by
    intro rested e he worker
    have := rested e he worker
    rw [same]
    omega
  cases h with
  | plain free other loose => exact .plain free other loose
  | fresh mine new up => exact .fresh mine new up
  | finished => exact .finished
  | quiet mine new due =>
    exact .quiet mine new fun a ha at_t => same ▸ due a (alarms a ha at_t) at_t
  | rested mine new rested up => exact .rested mine new (later rested) up
  | dropped up => exact .dropped up
  | queueing mine new rested entry =>
    obtain ⟨l, at_slot, mem⟩ := entry
    exact .queueing mine new (later rested) (entries _ l _ at_slot mem)
  | called mine new rested up entry =>
    obtain ⟨l, at_slot, mem⟩ := entry
    exact .called mine new (later rested) up (entries _ l _ at_slot mem)
  | leaving up => exact .leaving up
  | asked mine new rested => exact .asked mine new (later rested)
  | holding mine compiles parked loose begun => exact .holding mine compiles parked loose begun

/-- Marks of other tasks do not change where a task is. -/
theorem Stage.marks (h : Stage ms b t p) (more : ∀ m ∈ ms, m ∈ ms')
    (started : HasStarted ms' t → HasStarted ms t)
    (edits : ∀ e, .edited e ∈ ms' → e.worker = some t → .edited e ∈ ms) : Stage ms' b t p := by
  have mine : ∀ {r : Request}, Mine ms t r → Mine ms' t r := by
    rintro r ⟨e, he, rest⟩
    exact ⟨e, more _ he, rest⟩
  have new : ¬ HasStarted ms t → ¬ HasStarted ms' t := fun new h => new (started h)
  have rested : ∀ {now : Nat}, Rested ms t b.quiet now → Rested ms' t b.quiet now :=
    fun rested e he worker => rested e (edits e he worker) worker
  cases h with
  | plain free other loose => exact .plain free other loose
  | fresh m n up => exact .fresh (mine m) (new n) up
  | finished => exact .finished
  | quiet m n due => exact .quiet (mine m) (new n) fun a ha at_t => rested (due a ha at_t)
  | rested m n r up => exact .rested (mine m) (new n) (rested r) up
  | dropped up => exact .dropped up
  | queueing m n r entry => exact .queueing (mine m) (new n) (rested r) entry
  | called m n r up entry => exact .called (mine m) (new n) (rested r) up entry
  | leaving up => exact .leaving up
  | asked m n r => exact .asked (mine m) (new n) (rested r)
  | holding m compiles parked loose begun =>
    obtain ⟨time, begun⟩ := begun
    exact .holding (mine m) compiles parked loose ⟨time, more _ begun⟩

/-- What is compiled goes on when its task is woken. -/
theorem Compiles.wake {pre : List Frame} {s s' : Signal} (h : Compiles pre s) (above : pre ≠ [])
    (ends : s'.IsEnd) : Compiles pre s' := by
  cases h with
  | answered | crashed | cancelled => exact absurd rfl above
  | followed p => exact .running p ends
  | running p _ => exact .running p ends
  | following p _ => exact .following p ends
  | limited p f _ => exact .limited p f ends
  | stopping p why _ => exact .stopping p why ends
  | reaping p why _ => exact .reaping p why ends

/-- A task that is woken from a wait other than for a lock. -/
theorem Stage.wake (h : Stage ms b t p) {s : Signal} (asleep : ¬ p.wait.IsUp)
    (loose : ∀ u, p.wait ≠ .lock u) (ends : s = .value .unit ∨ s = .cancelled)
    (due : p.wait = .alarm → s = .value .unit → ∃ a ∈ b.alarms, a.task = t ∧ a.due ≤ b.clock) :
    Stage ms b t { p with wait := .turn, signal := s } := by
  have isEnd : s.IsEnd := by
    rcases ends with rfl | rfl
    · trivial
    · trivial
  have ended : ∀ r, s ≠ .start (.background r) := by
    rintro r rfl
    exact isEnd
  cases h with
  | plain free _ _ => exact .plain free ended ⟨nofun, nofun⟩
  | fresh _ _ up => exact absurd up asleep
  | finished => exact .plain nofun ended ⟨nofun, nofun⟩
  | quiet mine new rested =>
    rcases ends with rfl | rfl
    · obtain ⟨a, ha, at_t, late⟩ := due rfl rfl
      refine .rested mine new (fun e he worker => ?_) (.inl rfl)
      have := rested a ha at_t e he worker
      omega
    · exact .dropped (.inl rfl)
  | rested _ _ _ up => exact absurd up asleep
  | dropped up => exact absurd up asleep
  | queueing => exact absurd rfl (loose _)
  | called _ _ _ up => exact absurd up asleep
  | leaving up => exact absurd up asleep
  | asked => exact absurd (.inr rfl) asleep
  | holding mine compiles parked _ begun =>
    rcases parked with up | ⟨above, _⟩
    · exact absurd (.inr up) asleep
    · exact .holding mine (compiles.wake above isEnd) (.inr ⟨above, isEnd⟩) ⟨nofun, nofun⟩ begun

/-- A task that is about to ask for the compiler runs. -/
theorem Stage.not_asked {r : Request} {fs : List Frame} {text : String}
    (h : Stage ms b t ⟨.holding r :: fs, .start (.compile text), .turn⟩) : False := by
  generalize held : (Frame.holding r :: fs) = gs at h
  cases h with
  | plain free => cases free (.holding r) (held ▸ List.mem_cons_self)
  | @holding r' pre _ _ _ _ parked =>
    rcases parked with up | ⟨_, ends⟩
    · cases up
    · exact ends

/-- A task that gets its turn goes on as it was told, unless it is cancelled. -/
theorem Stage.resume {fs : List Frame} {s s' : Signal} (h : Stage ms b t ⟨fs, s, .turn⟩)
    (told : s' = s ∨ s' = .cancelled) : Stage ms b t ⟨fs, s', .running⟩ := by
  cases h with
  | plain free other _ =>
    refine .plain free ?_ ⟨nofun, nofun⟩
    rcases told with rfl | rfl
    · exact other
    · nofun
  | fresh mine new _ =>
    rcases told with rfl | rfl
    · exact .fresh mine new (.inr rfl)
    · exact .plain nofun nofun ⟨nofun, nofun⟩
  | rested mine new rested _ =>
    rcases told with rfl | rfl
    · exact .rested mine new rested (.inr rfl)
    · exact .dropped (.inr rfl)
  | dropped _ =>
    obtain rfl : s' = .cancelled := by simpa using told
    exact .dropped (.inr rfl)
  | called mine new rested _ entry =>
    rcases told with rfl | rfl
    · exact .called mine new rested (.inr rfl) entry
    · exact .leaving (.inr rfl)
  | leaving _ =>
    obtain rfl : s' = .cancelled := by simpa using told
    exact .leaving (.inr rfl)
  | holding mine compiles parked _ begun =>
    rcases parked with up | ⟨above, ends⟩
    · cases up
    · have ends' : s'.IsEnd := by
        rcases told with rfl | rfl
        · exact ends
        · trivial
      exact .holding mine (compiles.wake above ends') (.inl rfl) ⟨nofun, nofun⟩ begun

/-! ### Changes of one post -/

theorem set_found {α : Type} {xs : List α} {i : Nat} {x : α} (h : xs[i]? = some x) (y : α) (j : Nat) :
    (xs.set i y)[j]? = if i = j then some y else xs[j]? := by
  rw [List.getElem?_set]
  have lt := (List.getElem?_eq_some_iff.1 h).1
  simp [lt]

namespace Orderly

/-- A task that does not wait for a lock goes on with the same grip, perhaps with marks of it. -/
theorem replace (h : Orderly ms b) (found : b.posts[t]? = some p) (p' : Post) (as : List Alarm)
    (calm : ∀ u, p.wait ≠ .lock u) (same : gripOf p'.frames = gripOf p.frames)
    (alarms : ∀ a ∈ as, a.task ≠ t ∧ a ∈ b.alarms ∨
      a.task = t ∧ (p'.wait = .alarm ∨ ∃ f, p'.wait = .follower f))
    (others : ∀ u q, u ≠ t → Stage ms b u q → Stage ms' b u q)
    (stage : Stage ms' { b with posts := b.posts.set t p', alarms := as } t p') :
    Orderly ms' { b with posts := b.posts.set t p', alarms := as } := by
  have before : ∀ {u : TaskId} {q : Post}, (b.posts.set t p')[u]? = some q →
      ∃ q', b.posts[u]? = some q' ∧ gripOf q.frames = gripOf q'.frames := by
    intro u q hq
    rw [set_found found] at hq
    split at hq
    · rename_i here
      obtain rfl := Option.some.inj hq
      exact ⟨p, here ▸ found, same⟩
    · exact ⟨q, hq, rfl⟩
  refine {
    stage := ?stage, set := ?set, nodup := h.nodup, first := h.first, queued := ?queued, held := ?held, alone := ?alone }
  case stage =>
    intro u q hq
    rw [set_found found] at hq
    split at hq
    · rename_i here
      obtain rfl := Option.some.inj hq
      exact here ▸ stage
    · rename_i other
      refine (others u q (Ne.symm other) (h.stage u q hq)).mono (fun s l x at_s mem => ⟨l, at_s, mem⟩) ?_
        (Nat.le_refl _) rfl
      intro a ha at_u
      rcases alarms a ha with ⟨-, old⟩ | ⟨here, -⟩
      · exact old
      · exact absurd (here.symm.trans at_u) other
  case set =>
    intro a ha
    show ∃ q, (b.posts.set t p')[a.task]? = some q ∧ _
    rw [set_found found]
    rcases alarms a ha with ⟨other, old⟩ | ⟨here, waits⟩
    · rw [if_neg (Ne.symm other)]
      exact h.set a old
    · rw [if_pos here.symm]
      exact ⟨p', rfl, waits⟩
  case queued =>
    intro s l u x at_s mem
    obtain ⟨q, hq, grip, waits⟩ := h.queued s l u x at_s mem
    show ∃ q, (b.posts.set t p')[u]? = some q ∧ _
    rw [set_found found]
    split
    · rename_i here
      subst here
      obtain rfl := Option.some.inj (found.symm.trans hq)
      exact ⟨p', rfl, same.trans grip, fun x => absurd (waits x) (calm s)⟩
    · exact ⟨q, hq, grip, waits⟩
  case held =>
    intro u q s hq holds
    obtain ⟨q', hq', grip⟩ := before hq
    exact h.held u q' s hq' (grip ▸ holds)
  case alone =>
    intro u v q q' s hq hq' holds holds'
    obtain ⟨x, hx, grip⟩ := before hq
    obtain ⟨y, hy, grip'⟩ := before hq'
    exact h.alone u v x y s hx hy (grip ▸ holds) (grip' ▸ holds')

theorem move (h : Orderly ms b) (found : b.posts[t]? = some p) (p' : Post) (as : List Alarm)
    (calm : ∀ u, p.wait ≠ .lock u) (same : gripOf p'.frames = gripOf p.frames)
    (alarms : ∀ a ∈ as, a.task ≠ t ∧ a ∈ b.alarms ∨
      a.task = t ∧ (p'.wait = .alarm ∨ ∃ f, p'.wait = .follower f))
    (stage : Stage ms { b with posts := b.posts.set t p', alarms := as } t p') :
    Orderly ms { b with posts := b.posts.set t p', alarms := as } :=
  h.replace found p' as calm same alarms (fun _ _ _ => id) stage

/-- A lock is still held by one task at most when a task changes, if nobody else holds what that one comes to hold. -/
theorem alone_set (h : Orderly ms b) (found : b.posts[t]? = some p) {p' : Post}
    (clear : ∀ s, gripOf p'.frames = .holds s → ∀ v q, v ≠ t → b.posts[v]? = some q → gripOf q.frames ≠ .holds s)
    {u v : TaskId} {q q' : Post} {s : SlotId} (hq : (b.posts.set t p')[u]? = some q)
    (hq' : (b.posts.set t p')[v]? = some q')
    (holds : gripOf q.frames = .holds s) (holds' : gripOf q'.frames = .holds s) : u = v := by
  rw [set_found found] at hq hq'
  split at hq
  · rename_i here
    obtain rfl := Option.some.inj hq
    split at hq'
    · rename_i here'
      exact here.symm.trans here'
    · rename_i other
      exact absurd holds' (clear s holds v q' (Ne.symm other) hq')
  · rename_i other
    split at hq'
    · obtain rfl := Option.some.inj hq'
      exact absurd holds (clear s holds' u q (Ne.symm other) hq)
    · exact h.alone u v q q' s hq hq' holds holds'

/-- A task changes what it has to do with one lock, and the lock changes with it. -/
theorem shift (h : Orderly ms b) (found : b.posts[t]? = some p) {u : SlotId} {l l' : Lock}
    {p' : Post} {as : List Alarm} (at_u : b.locks[u]? = some l)
    (own : gripOf p.frames = .free ∨ gripOf p.frames = .queued u ∨ gripOf p.frames = .holds u)
    (alarms : ∀ a ∈ as, a.task ≠ t ∧ a ∈ b.alarms)
    (nodup : (l'.queue.map (·.1)).Nodup)
    (first : ∀ v, (v, .called) ∈ l'.queue → l'.held = false ∧ l'.queue.head? = some (v, .called))
    (others : ∀ v x, v ≠ t → ((v, x) ∈ l'.queue ↔ (v, x) ∈ l.queue))
    (entry : ∀ x, (t, x) ∈ l'.queue →
      gripOf p'.frames = .queued u ∧ (x = .waiting → p'.wait = .lock u))
    (hold : (∀ s, gripOf p'.frames ≠ .holds s) ∨ gripOf p'.frames = .holds u ∧ l'.held = true ∧
      ∀ v q, v ≠ t → b.posts[v]? = some q → gripOf q.frames ≠ .holds u)
    (still : l.held = true → l'.held = true ∨ gripOf p.frames = .holds u)
    (stage : Stage ms { b with
      locks := b.locks.set u l', posts := b.posts.set t p', alarms := as } t p') :
    Orderly ms { b with locks := b.locks.set u l', posts := b.posts.set t p', alarms := as } := by
  have others_stay : ∀ {v : TaskId} {q : Post}, v ≠ t → b.posts[v]? = some q →
      (b.posts.set t p')[v]? = some q := by
    intro v q other hq
    rw [set_found found, if_neg (Ne.symm other), hq]
  refine {
    stage := ?stage, set := ?set, nodup := ?nodup, first := ?first, queued := ?queued, held := ?held, alone := ?alone }
  case stage =>
    intro v q hq
    rw [set_found found] at hq
    split at hq
    · rename_i here
      obtain rfl := Option.some.inj hq
      exact here ▸ stage
    · rename_i other
      refine (h.stage v q hq).mono ?_ (fun a ha _ => (alarms a ha).2) (Nat.le_refl _) rfl
      intro s m x at_s mem
      show ∃ l'', (b.locks.set u l')[s]? = some l'' ∧ _
      rw [set_found at_u]
      split
      · rename_i here
        obtain rfl := Option.some.inj ((here ▸ at_u).symm.trans at_s)
        exact ⟨l', rfl, (others v x (Ne.symm other)).2 mem⟩
      · exact ⟨m, at_s, mem⟩
  case set =>
    intro a ha
    obtain ⟨other, old⟩ := alarms a ha
    obtain ⟨q, hq, waits⟩ := h.set a old
    exact ⟨q, others_stay other hq, waits⟩
  case nodup =>
    intro s m at_s
    rw [set_found at_u] at at_s
    split at at_s
    · obtain rfl := Option.some.inj at_s
      exact nodup
    · exact h.nodup s m at_s
  case first =>
    intro s m v at_s mem
    rw [set_found at_u] at at_s
    split at at_s
    · obtain rfl := Option.some.inj at_s
      exact first v mem
    · exact h.first s m v at_s mem
  case queued =>
    intro s m v x at_s mem
    rw [set_found at_u] at at_s
    split at at_s
    · rename_i here
      subst here
      obtain rfl := Option.some.inj at_s
      by_cases at_t : v = t
      · subst at_t
        exact ⟨p', by rw [set_found found, if_pos rfl], entry x mem⟩
      · obtain ⟨q, hq, rest⟩ := h.queued u l v x at_u ((others v x at_t).1 mem)
        exact ⟨q, others_stay at_t hq, rest⟩
    · rename_i elsewhere
      obtain ⟨q, hq, grip, waits⟩ := h.queued s m v x at_s mem
      refine ⟨q, others_stay ?_ hq, grip, waits⟩
      rintro rfl
      obtain rfl := Option.some.inj (found.symm.trans hq)
      rw [grip] at own
      simp only [reduceCtorEq, Grip.queued.injEq, or_false, false_or] at own
      exact elsewhere own.symm
  case held =>
    intro v q s hq holds
    show ∃ l'', (b.locks.set u l')[s]? = some l'' ∧ _
    rw [set_found found] at hq
    rw [set_found at_u]
    split at hq
    · obtain rfl := Option.some.inj hq
      rcases hold with none | ⟨grip, held, -⟩
      · exact absurd holds (none s)
      · rw [grip, Grip.holds.injEq] at holds
        rw [if_pos holds]
        exact ⟨l', rfl, held⟩
    · rename_i other
      obtain ⟨m, at_s, held⟩ := h.held v q s hq holds
      split
      · rename_i here
        subst here
        obtain rfl := Option.some.inj (at_u.symm.trans at_s)
        rcases still held with held' | holds'
        · exact ⟨l', rfl, held'⟩
        · exact absurd (h.alone t v p q u found hq holds' holds) other
      · exact ⟨m, at_s, held⟩
  case alone =>
    intro v w q q' s hq hq' holds holds'
    refine h.alone_set found (fun s mine => ?_) hq hq' holds holds'
    rcases hold with none | ⟨grip, -, clear⟩
    · exact absurd mine (none s)
    · rw [grip, Grip.holds.injEq] at mine
      exact mine ▸ clear

/-- No alarm is set for a task that waits for none. -/
theorem no_alarm (h : Orderly ms b) (found : b.posts[t]? = some p) (awake : p.wait ≠ .alarm)
    (alone : ∀ f, p.wait ≠ .follower f) : ∀ a ∈ b.alarms, a.task ≠ t := by
  rintro a ha rfl
  obtain ⟨q, hq, waits | ⟨f, waits⟩⟩ := h.set a ha
  · obtain rfl := Option.some.inj (found.symm.trans hq)
    exact awake waits
  · obtain rfl := Option.some.inj (found.symm.trans hq)
    exact alone f waits

theorem clear (h : Orderly ms b) {u : SlotId} {l : Lock} (at_u : b.locks[u]? = some l)
    (open_ : l.held = false) : ∀ (v : TaskId) q, b.posts[v]? = some q → gripOf q.frames ≠ .holds u := by
  intro v q hq holds
  obtain ⟨m, at_u', held⟩ := h.held v q u hq holds
  obtain rfl := Option.some.inj (at_u.symm.trans at_u')
  rw [open_] at held
  cases held

end Orderly

/-! ### Waking -/

theorem modify_found {α : Type} {xs : List α} {i : Nat} {x : α} (h : xs[i]? = some x) (f : α → α) :
    xs.modify i f = xs.set i (f x) := by
  refine List.ext_getElem? fun j => ?_
  rw [set_found h, List.getElem?_modify]
  by_cases here : i = j
  · subst here
    simp [h]
  · simp [here]

namespace Bench

def wake (b : Bench) (t : TaskId) (s : Signal) : Bench :=
  { b with
    posts := b.posts.modify t fun p => { p with wait := .turn, signal := s }
    alarms := b.alarms.filter (·.task != t) }

def setLock (b : Bench) (u : SlotId) (f : Lock → Lock) : Bench :=
  { b with locks := b.locks.modify u f }

end Bench

@[simp] theorem mark_fst (l : Lock) (t : TaskId) (x : Waiter) :
    (l.mark t x).queue.map (·.1) = l.queue.map (·.1) := by
  simp only [Lock.mark, List.map_map]
  refine List.map_congr_left fun w _ => ?_
  by_cases here : w.1 = t
  · simp [here]
  · simp [here]

theorem mem_mark {l : Lock} {t v : TaskId} {x y : Waiter} (other : v ≠ t) :
    (v, y) ∈ (l.mark t x).queue ↔ (v, y) ∈ l.queue := by
  simp only [Lock.mark, List.mem_map]
  constructor
  · rintro ⟨w, mem, eq⟩
    split at eq
    · obtain ⟨rfl, -⟩ := Prod.mk.inj eq
      exact absurd rfl other
    · exact eq ▸ mem
  · intro mem
    exact ⟨(v, y), mem, by simp [other]⟩

theorem eq_of_mem_mark {l : Lock} {t : TaskId} {x y : Waiter} (mem : (t, y) ∈ (l.mark t x).queue) :
    y = x := by
  simp only [Lock.mark, List.mem_map] at mem
  obtain ⟨w, -, eq⟩ := mem
  split at eq
  · exact (Prod.mk.inj eq).2.symm
  · rename_i other
    subst eq
    simp at other

theorem head_mark (l : Lock) (t : TaskId) (x : Waiter) :
    (l.mark t x).queue.head? = l.queue.head?.map fun w => if w.1 == t then (t, x) else w := by
  simp [Lock.mark]

namespace Orderly

/-- A task is woken from a wait other than for a lock. -/
theorem wake (h : Orderly ms b) (found : b.posts[t]? = some p) {s : Signal} (asleep : ¬ p.wait.IsUp)
    (loose : ∀ u, p.wait ≠ .lock u) (ends : s = .value .unit ∨ s = .cancelled)
    (due : p.wait = .alarm → s = .value .unit → ∃ a ∈ b.alarms, a.task = t ∧ a.due ≤ b.clock) :
    Orderly ms (b.wake t s) := by
  rw [Bench.wake, modify_found found]
  refine h.move found _ _ loose rfl ?_ ?_
  · intro a ha
    obtain ⟨mem, other⟩ := List.mem_filter.1 ha
    exact .inl ⟨by simpa using other, mem⟩
  · refine ((h.stage t p found).wake asleep loose ends due).mono (fun _ l _ at_s mem => ⟨l, at_s, mem⟩)
      ?_ (Nat.le_refl _) rfl
    exact fun a ha _ => (List.mem_filter.1 ha).1

/-- What a task that waits for a lock is at. -/
theorem at_lock (h : Orderly ms b) (found : b.posts[t]? = some p) {u : SlotId}
    (waits : p.wait = .lock u) : ∃ r, p.frames = [.queueing r] ∧ r.slot = u ∧ Mine ms t r ∧
      ¬ HasStarted ms t ∧ Rested ms t b.quiet b.clock ∧
      ∃ l, b.locks[u]? = some l ∧ (t, .waiting) ∈ l.queue := by
  cases h.stage t p found with
  | queueing mine new rested entry =>
    obtain rfl := (Wait.lock.inj waits)
    exact ⟨_, rfl, rfl, mine, new, rested, entry⟩
  | plain _ _ loose => exact absurd waits (loose.2 u)
  | holding _ _ _ loose => exact absurd waits (loose.2 u)
  | fresh _ _ up => rcases up with up | up <;> simp [up] at waits
  | quiet | finished | asked => cases waits
  | rested _ _ _ up => rcases up with up | up <;> simp [up] at waits
  | dropped up => rcases up with up | up <;> simp [up] at waits
  | called _ _ _ up => rcases up with up | up <;> simp [up] at waits
  | leaving up => rcases up with up | up <;> simp [up] at waits

/-- A task in the queue of a lock is marked there as one that waits no more, and woken. -/
theorem mark (h : Orderly ms b) (found : b.posts[t]? = some p) {u : SlotId} {l : Lock} (at_u : b.locks[u]? = some l)
    (grip : gripOf p.frames = .queued u) {x : Waiter} {s : Signal} (awake : x ≠ .waiting)
    (first : ∀ v, (v, .called) ∈ (l.mark t x).queue → l.held = false ∧ (l.mark t x).queue.head? = some (v, .called))
    (stage : Stage ms ((b.setLock u fun l => l.mark t x).wake t s) t ⟨p.frames, s, .turn⟩) :
    Orderly ms ((b.setLock u fun l => l.mark t x).wake t s) := by
  rw [Bench.setLock, Bench.wake, modify_found at_u, modify_found found] at stage ⊢
  refine h.shift found at_u (.inr (.inl grip)) ?_ ?_ first (fun v x other => mem_mark other) ?_ ?_ .inl stage
  · intro a ha
    obtain ⟨mem, other⟩ := List.mem_filter.1 ha
    exact ⟨by simpa using other, mem⟩
  · rw [mark_fst]
    exact h.nodup u l at_u
  · intro y mem
    obtain rfl := eq_of_mem_mark mem
    exact ⟨grip, fun waits => absurd waits awake⟩
  · exact .inl fun s holds => by simp [grip] at holds

/-- A task that waits for a lock is cancelled. -/
theorem unqueue (h : Orderly ms b) (found : b.posts[t]? = some p) {u : SlotId}
    (waits : p.wait = .lock u) :
    Orderly ms ((b.setLock u fun l => l.mark t .cancelled).wake t .cancelled) := by
  obtain ⟨r, frames, slot, -, -, -, l, at_u, -⟩ := h.at_lock found waits
  have grip : gripOf p.frames = .queued u := by rw [frames, gripOf_queueing, slot]
  refine h.mark found at_u grip nofun (fun v mem => ?_) ?_
  · by_cases here : v = t
    · subst here
      cases eq_of_mem_mark mem
    · obtain ⟨free, head⟩ := h.first u l v at_u ((mem_mark here).1 mem)
      exact ⟨free, by simp [head_mark, head, here]⟩
  · rw [frames]
    exact .leaving (.inl rfl)

/-- The first in the queue of a lock that is free is called. -/
theorem call (h : Orderly ms b) {u : SlotId} {l : Lock} (at_u : b.locks[u]? = some l)
    (free : l.held = false) (next : l.next? = some t) :
    Orderly ms ((b.setLock u fun l => l.mark t .called).wake t (.value .unit)) := by
  have head := Lock.head_of_next next
  have mem := List.mem_of_head? head
  obtain ⟨p, found, grip, waits⟩ := h.queued u l t .waiting at_u mem
  obtain ⟨r, frames, slot, mine, new, rested, -⟩ := h.at_lock found (waits rfl)
  refine h.mark found at_u grip nofun (fun v mem => ⟨free, ?_⟩) ?_
  · by_cases here : v = t
    · subst here
      simp [head_mark, head]
    · obtain ⟨-, head'⟩ := h.first u l v at_u ((mem_mark here).1 mem)
      rw [head] at head'
      simp at head'
  · rw [frames]
    refine .called mine new rested (.inl rfl) ⟨l.mark t .called, ?_, ?_⟩
    · rw [slot]
      simp [Bench.setLock, Bench.wake, at_u]
    · simp only [Lock.mark, List.mem_map]
      exact ⟨(t, .waiting), mem, by simp⟩

end Orderly

/-! ### Taking and giving back a lock -/

namespace Bench

/-- The post of a task is replaced, and the lock of a slot changed. -/
def put (b : Bench) (t : TaskId) (p : Post) : Bench := { b with posts := b.posts.set t p }

end Bench

namespace Orderly

/-- A running task without a grip joins the queue of a lock. -/
theorem join (h : Orderly ms b) (found : b.posts[t]? = some p) (runs : p.wait = .running)
    (free : gripOf p.frames = .free) {r : Request} {l : Lock} (at_u : b.locks[r.slot]? = some l)
    (mine : Mine ms t r) (new : ¬ HasStarted ms t) (rested : Rested ms t b.quiet b.clock) :
    Orderly ms ((b.setLock r.slot fun l => { l with queue := l.queue ++ [(t, .waiting)] }).put t
      ⟨[.queueing r], .value .unit, .lock r.slot⟩) := by
  have absent : ∀ x, (t, x) ∉ l.queue := by
    intro x mem
    obtain ⟨q, hq, grip, -⟩ := h.queued r.slot l t x at_u mem
    obtain rfl := Option.some.inj (found.symm.trans hq)
    rw [free] at grip
    cases grip
  have quiet := h.no_alarm found (by simp [runs]) (by simp [runs])
  rw [Bench.setLock, modify_found at_u]
  refine h.shift found at_u (.inl free) (fun a ha => ⟨quiet a ha, ha⟩) ?_ ?_ ?_ ?_ ?_ .inl ?_
  · rw [List.map_append, List.nodup_append]
    refine ⟨h.nodup r.slot l at_u, by simp, ?_⟩
    rintro v mem w last rfl
    obtain rfl : v = t := by simpa using last
    obtain ⟨⟨v, x⟩, entry, rfl⟩ := List.mem_map.1 mem
    exact absent x entry
  · intro v mem
    rcases List.mem_append.1 mem with old | last
    · obtain ⟨held, head⟩ := h.first r.slot l v at_u old
      refine ⟨held, ?_⟩
      cases queue : l.queue with
      | nil => simp [queue] at head
      | cons w rest => simpa [queue] using head
    · simp at last
  · intro v x other
    simp [other]
  · intro x mem
    rcases List.mem_append.1 mem with old | last
    · exact absurd old (absent x)
    · exact ⟨rfl, fun _ => rfl⟩
  · exact .inl fun s => by simp
  · refine .queueing mine new rested ⟨_, (set_found at_u _ r.slot).trans (if_pos rfl), ?_⟩
    simp

/-- A running task without a grip takes a lock for which nobody waits. -/
theorem grab (h : Orderly ms b) (found : b.posts[t]? = some p) (runs : p.wait = .running)
    (free : gripOf p.frames = .free) {r : Request} {l : Lock} (at_u : b.locks[r.slot]? = some l)
    (nobody : l.isOpen = true) (mine : Mine ms t r) (new : ¬ HasStarted ms t)
    (rested : Rested ms t b.quiet b.clock) :
    Orderly ms ((b.setLock r.slot fun l => { l with held := true }).put t
      ⟨[.holding r], .start (.compile r.text), .running⟩) := by
  simp only [Lock.isOpen, Bool.and_eq_true, Bool.not_eq_true', List.all_eq_true, beq_iff_eq] at nobody
  have quiet := h.no_alarm found (by simp [runs]) (by simp [runs])
  rw [Bench.setLock, modify_found at_u]
  refine h.shift found at_u (.inl free) (fun a ha => ⟨quiet a ha, ha⟩) (h.nodup r.slot l at_u) ?_
    (fun _ _ _ => Iff.rfl) ?_ ?_ (fun _ => .inl rfl) ?_
  · intro v mem
    cases nobody.2 _ mem
  · intro x mem
    obtain ⟨q, hq, grip, -⟩ := h.queued r.slot l t x at_u mem
    obtain rfl := Option.some.inj (found.symm.trans hq)
    rw [free] at grip
    cases grip
  · exact .inr ⟨rfl, rfl, fun v q _ => h.clear at_u nobody.1 v q⟩
  · exact .asked mine new rested

/-- A task that has been called takes the lock. -/
theorem take (h : Orderly ms b) (found : b.posts[t]? = some p) (runs : p.wait = .running)
    {r : Request} (grip : gripOf p.frames = .queued r.slot) {l : Lock}
    (at_u : b.locks[r.slot]? = some l) (called : (t, .called) ∈ l.queue) (mine : Mine ms t r)
    (new : ¬ HasStarted ms t) (rested : Rested ms t b.quiet b.clock) :
    Orderly ms ((b.setLock r.slot fun l => { l.leave t with held := true }).put t
      ⟨[.holding r], .start (.compile r.text), .running⟩) := by
  obtain ⟨free, head⟩ := h.first r.slot l t at_u called
  have quiet := h.no_alarm found (by simp [runs]) (by simp [runs])
  rw [Bench.setLock, modify_found at_u]
  refine h.shift found at_u (.inr (.inl grip)) (fun a ha => ⟨quiet a ha, ha⟩) ?_ ?_ ?_ ?_ ?_
    (fun _ => .inl rfl) ?_
  · exact (h.nodup r.slot l at_u).sublist (List.filter_sublist.map _)
  · intro v mem
    obtain ⟨old, other⟩ := List.mem_filter.1 mem
    obtain ⟨-, head'⟩ := h.first r.slot l v at_u old
    rw [head] at head'
    simp at head' other
    exact absurd head'.symm other
  · intro v x other
    simp [Lock.leave, other]
  · intro x mem
    simp [Lock.leave] at mem
  · exact .inr ⟨rfl, rfl, fun v q _ => h.clear at_u free v q⟩
  · exact .asked mine new rested

/-- A task leaves the queue of a lock and is done with its request. -/
theorem leave (h : Orderly ms b) (found : b.posts[t]? = some p) (runs : p.wait = .running)
    {u : SlotId} (grip : gripOf p.frames = .queued u) {l : Lock} (at_u : b.locks[u]? = some l)
    {fs : List Frame} {s : Signal} (plain : Plain fs) (ends : s.IsEnd) :
    Orderly ms ((b.setLock u fun l => l.leave t).put t ⟨fs, s, .running⟩) := by
  have quiet := h.no_alarm found (by simp [runs]) (by simp [runs])
  rw [Bench.setLock, modify_found at_u]
  refine h.shift found at_u (.inr (.inl grip)) (fun a ha => ⟨quiet a ha, ha⟩) ?_ ?_ ?_ ?_ ?_ .inl ?_
  · exact (h.nodup u l at_u).sublist (List.filter_sublist.map _)
  · intro v mem
    obtain ⟨old, other⟩ := List.mem_filter.1 mem
    obtain ⟨held, head⟩ := h.first u l v at_u old
    refine ⟨held, ?_⟩
    cases queue : l.queue with
    | nil => simp [queue] at head
    | cons w rest =>
      obtain rfl : w = (v, .called) := by simpa [queue] using head
      simp only [Lock.leave, queue, List.filter_cons]
      rw [if_pos other]
      rfl
  · intro v x other
    simp [Lock.leave, other]
  · intro x mem
    simp [Lock.leave] at mem
  · exact .inl fun s => by simp [gripOf_plain plain]
  · refine .plain plain ?_ ⟨nofun, nofun⟩
    rintro r rfl
    exact ends

/-- A task gives a lock back and is done with its request. -/
theorem giveBack (h : Orderly ms b) (found : b.posts[t]? = some p) (runs : p.wait = .running)
    {u : SlotId} (grip : gripOf p.frames = .holds u) {fs : List Frame} {s : Signal} (plain : Plain fs)
    (ends : s.IsEnd) :
    Orderly ms ((b.setLock u fun l => { l with held := false }).put t ⟨fs, s, .running⟩) := by
  obtain ⟨l, at_u, held⟩ := h.held t p u found grip
  have quiet := h.no_alarm found (by simp [runs]) (by simp [runs])
  rw [Bench.setLock, modify_found at_u]
  refine h.shift found at_u (.inr (.inr grip)) (fun a ha => ⟨quiet a ha, ha⟩) (h.nodup u l at_u) ?_
    (fun _ _ _ => Iff.rfl) ?_ ?_ (fun _ => .inr grip) ?_
  · intro v mem
    obtain ⟨free, -⟩ := h.first u l v at_u mem
    rw [held] at free
    cases free
  · intro x mem
    obtain ⟨q, hq, grip', -⟩ := h.queued u l t x at_u mem
    obtain rfl := Option.some.inj (found.symm.trans hq)
    rw [grip] at grip'
    cases grip'
  · exact .inl fun s => by simp [gripOf_plain plain]
  · refine .plain plain ?_ ⟨nofun, nofun⟩
    rintro r rfl
    exact ends

/-! ### New tasks, slots and marks; time -/

theorem spawn (h : Orderly ms b) (stage : Stage ms b b.posts.length p)
    (free : gripOf p.frames = .free) : Orderly ms { b with posts := b.posts ++ [p] } := by
  have old : ∀ {u : TaskId} {q : Post}, b.posts[u]? = some q → (b.posts ++ [p])[u]? = some q :=
    fun hq => by rw [List.getElem?_append_left (List.getElem?_eq_some_iff.1 hq).1, hq]
  have cases_on : ∀ {u : TaskId} {q : Post}, (b.posts ++ [p])[u]? = some q →
      b.posts[u]? = some q ∨ u = b.posts.length ∧ q = p := World.getElem?_concat_iff.1
  have same : ∀ {u : TaskId} {q : Post}, Stage ms b u q → Stage ms { b with posts := b.posts ++ [p] } u q :=
    fun st => st.mono (fun _ l _ at_s mem => ⟨l, at_s, mem⟩) (fun _ ha _ => ha) (Nat.le_refl _) rfl
  refine ⟨?_, ?_, h.nodup, h.first, ?_, ?_, ?_⟩
  · intro u q hq
    rcases cases_on hq with hq | ⟨rfl, rfl⟩
    · exact same (h.stage u q hq)
    · exact same stage
  · intro a ha
    obtain ⟨q, hq, waits⟩ := h.set a ha
    exact ⟨q, old hq, waits⟩
  · intro s l u x at_s mem
    obtain ⟨q, hq, rest⟩ := h.queued s l u x at_s mem
    exact ⟨q, old hq, rest⟩
  · intro u q s hq holds
    rcases cases_on hq with hq | ⟨rfl, rfl⟩
    · exact h.held u q s hq holds
    · rw [free] at holds
      cases holds
  · intro u v q q' s hq hq' holds holds'
    rcases cases_on hq with hq | ⟨rfl, rfl⟩
    · rcases cases_on hq' with hq' | ⟨rfl, rfl⟩
      · exact h.alone u v q q' s hq hq' holds holds'
      · rw [free] at holds'
        cases holds'
    · rw [free] at holds
      cases holds

theorem openSlot (h : Orderly ms b) : Orderly ms { b with locks := b.locks ++ [Lock.free] } := by
  have old : ∀ {s : SlotId} {l : Lock}, b.locks[s]? = some l →
      (b.locks ++ [Lock.free])[s]? = some l :=
    fun hl => by rw [List.getElem?_append_left (List.getElem?_eq_some_iff.1 hl).1, hl]
  have cases_on : ∀ {s : SlotId} {l : Lock}, (b.locks ++ [Lock.free])[s]? = some l →
      b.locks[s]? = some l ∨ s = b.locks.length ∧ l = Lock.free := World.getElem?_concat_iff.1
  refine ⟨?_, h.set, ?_, ?_, ?_, ?_, h.alone⟩
  · exact fun t p found => (h.stage t p found).mono (fun s l x at_s mem => ⟨l, old at_s, mem⟩)
      (fun _ ha _ => ha) (Nat.le_refl _) rfl
  · intro s l at_s
    rcases cases_on at_s with at_s | ⟨-, rfl⟩
    · exact h.nodup s l at_s
    · simp [Lock.free]
  · intro s l t at_s mem
    rcases cases_on at_s with at_s | ⟨-, rfl⟩
    · exact h.first s l t at_s mem
    · cases mem
  · intro s l t x at_s mem
    rcases cases_on at_s with at_s | ⟨-, rfl⟩
    · exact h.queued s l t x at_s mem
    · cases mem
  · intro t p s found holds
    obtain ⟨l, at_s, held⟩ := h.held t p s found holds
    exact ⟨l, old at_s, held⟩

theorem later (h : Orderly ms b) {now : Nat} (le : b.clock ≤ now) :
    Orderly ms { b with clock := now } :=
  ⟨fun t p found => (h.stage t p found).mono (fun _ l _ at_s mem => ⟨l, at_s, mem⟩)
    (fun _ ha _ => ha) le rfl, h.set, h.nodup, h.first, h.queued, h.held, h.alone⟩

/-- Marks that start no task and edits for no task at hand change nothing. -/
theorem marks (h : Orderly ms b) (more : ∀ m ∈ ms, m ∈ ms')
    (started : ∀ t p, b.posts[t]? = some p → HasStarted ms' t → HasStarted ms t)
    (edits : ∀ t p e, b.posts[t]? = some p → .edited e ∈ ms' → e.worker = some t → .edited e ∈ ms) :
    Orderly ms' b :=
  ⟨fun t p found => (h.stage t p found).marks more (started t p found) fun e => edits t p e found,
    h.set, h.nodup, h.first, h.queued, h.held, h.alone⟩

end Orderly

end
end InkPreview.Live
