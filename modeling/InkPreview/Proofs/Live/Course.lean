import InkPreview.Proofs.Live.Fresh
import InkPreview.Proofs.Live.Midst
/-!
The course of requests. Whatever the running task does next keeps the bench in order: turns without
a request keep out of it, a compile under a lock goes on, and a request's own steps take it from one
place on its course to the next.
-/
namespace InkPreview.Live

/-! ### Turns -/

theorem kept_plain (subscribers : List Subscriber) :
    Frame.Kept subscribers fun f => f.request? = none where
  simple f simple := by
    cases f with
    | notifying | acting | quiet | queueing | holding => exact simple.elim
    | _ => rfl
  told _ _ _ _ := rfl
  called _ _ _ _ _ _ _ _ _ := rfl
  acted _ _ _ _ _ _ := rfl

/-- Turns wait, but not for a lock, and alarms are set for waits that end on them. -/
def Landing.IsCalm : Landing → Prop
  | .park _ wait => wait ≠ .running ∧ wait.IsFree
  | .timed _ wait _ => wait = .alarm ∨ ∃ f, wait = .follower f
  | _ => True

theorem Op.Lands.calm {op : Op} {new : TaskId} {fs : List Frame} {l : Landing}
    (h : op.Lands new fs l) : l.IsCalm := by
  cases h with
  | waits h => cases h <;> exact ⟨nofun, nofun, nofun⟩
  | timed => exact .inl rfl
  | limited => exact .inr ⟨_, rfl⟩
  | opens | turn | answers => trivial

namespace World

theorem Acted.calm {i : Nat} {u : Update} {todo : List Action} {fs : List Frame} {l : Landing}
    (h : Acted i u todo fs l) : l.IsCalm := by
  cases h with
  | timed => exact .inl rfl
  | through | fails | turn | edits | closes | asks | skips => trivial

theorem Killed.calm {p : ProcessId} {why : KillReason} {fs : List Frame} {l : Landing}
    (h : Killed p why fs l) : l.IsCalm := by
  cases h with
  | timed => exact .inl rfl
  | timedOut | cancelled | turn => trivial

theorem Turn.calm {w : World} {fs : List Frame} {s : Signal} {l : Landing} (h : Turn w fs s l) :
    l.IsCalm := by
  cases h with
  | begins h => exact h.calm
  | waits _ h => cases h <;> exact ⟨nofun, nofun, nofun⟩
  | told _ _ h =>
    cases h with
    | script _ _ acted => exact acted.calm
    | through | stale | clients | nobody => trivial
  | acted h => exact h.calm
  | late | hurried => exact ⟨nofun, nofun, nofun⟩
  | killed h | reaped h => exact h.calm
  | killedNow _ h | lost _ _ h => exact h.calm
  | done | opens | pops | untold | failed | stopped | ran | waited | heeded | unreaped | faulted => trivial

end World

/-- Without a request on its stack a task has none after its turn. -/
theorem Landing.ready_plain {l : Landing} (plain : Plain l.frames) (given : l.IsGiven)
    (calm : l.IsCalm) (ms : List Mark) (b : Bench) (t : TaskId) : l.Ready ms b t .free := by
  have stage : ∀ {b : Bench} {fs : List Frame} {wait : Wait}, Plain fs → wait.IsFree →
      Stage ms b t ⟨fs, .value .unit, wait⟩ := fun plain => .plain plain nofun
  cases l with
  | go fs s =>
    refine ⟨gripOf_plain plain, .plain plain ?_ ⟨nofun, nofun⟩, ?_⟩
    · rintro r rfl
      rcases given with given | ⟨p, eq⟩
      · cases given
      · cases eq
    · rintro r rest text rfl
      cases plain _ List.mem_cons_self
  | park fs wait =>
    exact ⟨gripOf_plain plain, calm.1, stage plain calm.2⟩
  | turn fs => exact ⟨gripOf_plain plain, stage plain ⟨nofun, nofun⟩⟩
  | timed fs wait n =>
    refine ⟨gripOf_plain plain, calm, stage plain ?_⟩
    rcases calm with rfl | ⟨f, rfl⟩
    · exact ⟨nofun, nofun⟩
    · exact ⟨nofun, nofun⟩
  | finish r => rfl

/-- A compile goes on: where it leads under the frames of what asked for it. -/
inductive Landing.Compiling (base : List Frame) : Landing → Prop
  | go (pre : List Frame) {s : Signal} (compiles : Compiles pre s) : Compiling base (.go (pre ++ base) s)
  | park (pre : List Frame) (compiles : Compiles pre (.value .unit)) (above : pre ≠ [])
      (f : TaskId) : Compiling base (.park (pre ++ base) (.follower f))
  | turn (pre : List Frame) (compiles : Compiles pre (.value .unit)) (above : pre ≠ []) :
      Compiling base (.turn (pre ++ base))
  | timed (pre : List Frame) (compiles : Compiles pre (.value .unit)) (above : pre ≠ [])
      {wait : Wait} (waits : wait = .alarm ∨ ∃ f, wait = .follower f) (n : Nat) :
      Compiling base (.timed (pre ++ base) wait n)

section
variable {base : List Frame} {l : Landing} {p : ProcessId}

theorem Op.Lands.compiling {text : String} {new : TaskId} (h : (Op.compile text).Lands new base l) :
    l.Compiling base := by
  cases h with
  | opens h =>
    cases h with
    | compile => exact .go _ (.followed _)
  | waits h =>
    cases h with
    | compile => exact .park _ (.stopping _ _ trivial) nofun _
  | turn h => cases h
  | timed h => cases h
  | limited => exact .timed [.limited _ _] (.limited _ _ trivial) nofun (.inr ⟨_, rfl⟩) _
  | answers h =>
    cases h with
    | compiled => exact .go _ (.answered _)
    | crashed => exact .go _ (.crashed _)

theorem Op.Lands.following {new : TaskId} (h : (Op.follow p).Lands new (.running p :: base) l) :
    l.Compiling base := by
  cases h with
  | opens h => cases h
  | waits h => cases h
  | turn h =>
    cases h with
    | follow => exact .turn [.following p, .running p] (.following p trivial) nofun
  | timed h =>
    cases h with
    | follow => exact .timed [.following p, .running p] (.following p trivial) nofun (.inl rfl) _
  | limited h => cases h
  | answers h =>
    cases h with
    | follow => exact .go [.running p] (.running p trivial)

theorem World.Killed.compiling {why : KillReason} (h : Killed p why base l) :
    l.Compiling base := by
  cases h with
  | timedOut => exact .go _ (.answered _)
  | cancelled => exact .go _ .cancelled
  | turn => exact .turn [.reaping p why] (.reaping p why trivial) nofun
  | timed => exact .timed [.reaping p why] (.reaping p why trivial) nofun (.inl rfl) _

/-- A turn of a compile that has not come to its end yet. -/
theorem Compiles.turn {w : World} {pre : List Frame} {s : Signal} (h : Compiles pre s)
    (going : pre = [] → ¬ s.IsEnd) (turn : w.Turn (pre ++ base) s l) : l.Compiling base := by
  cases h with
  | answered o => exact absurd trivial (going rfl)
  | crashed e => exact absurd trivial (going rfl)
  | cancelled => exact absurd trivial (going rfl)
  | followed p =>
    cases turn with
    | begins h => exact h.following
    | opens ends | waits ends | pops _ ends => exact ends.elim
  | running p ends =>
    cases turn with
    | begins => exact ends.elim
    | opens _ h => cases h
    | waits _ h => cases h
    | pops plain => exact plain.elim
    | ran => exact .go _ (.answered _)
    | killedNow _ h => exact h.compiling
    | faulted => exact .go _ (.crashed _)
  | following p ends =>
    cases turn with
    | begins => exact ends.elim
    | opens _ h => cases h
    | waits _ h => cases h
    | pops _ _ ends' => exact .go [.running p] (.running p ends')
    | killedNow hf => rcases hf with eq | ⟨_, eq⟩ <;> cases eq
    | faulted hf => obtain ⟨_, eq | ⟨_, eq⟩ | ⟨_, eq | eq⟩⟩ := hf <;> cases eq
  | limited p f ends =>
    cases turn with
    | begins => exact ends.elim
    | opens _ h => cases h
    | waits _ h => cases h
    | pops plain => exact plain.elim
    | waited => exact .go _ (.answered _)
    | lost _ _ h => exact h.compiling
    | late => exact .park [.stoppingFollower p _] (.stopping p _ trivial) nofun f
    | hurried => exact .park [.stoppingFollower p _] (.stopping p _ trivial) nofun f
    | heeded => exact .go _ .cancelled
    | killedNow hf => rcases hf with eq | ⟨_, eq⟩ <;> cases eq
    | faulted => exact .go _ (.crashed _)
  | stopping p why ends =>
    cases turn with
    | begins => exact ends.elim
    | opens _ h => cases h
    | waits _ h => cases h
    | pops plain => exact plain.elim
    | killed h => exact h.compiling
    | killedNow _ h => exact h.compiling
    | faulted => exact .go _ (.crashed _)
  | reaping p why ends =>
    cases turn with
    | begins => exact ends.elim
    | opens _ h => cases h
    | waits _ h => cases h
    | pops plain => exact plain.elim
    | reaped h => exact h.compiling
    | unreaped => exact .go _ .cancelled
    | killedNow hf => rcases hf with eq | ⟨_, eq⟩ <;> cases eq
    | faulted => exact .go _ (.crashed _)

end

/-- The frames of a compile carry no request. -/
theorem Compiles.plain {pre : List Frame} (h : Compiles pre s) : Plain pre := by
  cases h <;> simp [Plain, Frame.request?]

/-- A compile begins nothing itself but to follow its child. -/
theorem Compiles.begins {pre : List Frame} {op : Op} (h : Compiles pre (.start op)) : ∃ p, op = .follow p := by
  cases h with
  | followed p => exact ⟨p, rfl⟩
  | running _ ends | following _ ends | limited _ _ ends | stopping _ _ ends | reaping _ _ ends =>
    exact ends.elim

theorem Compiles.onward {pre : List Frame} {s : Signal} (h : Compiles pre s) (text : String) :
    s ≠ .start (.compile text) := by
  rintro rfl
  obtain ⟨p, eq⟩ := h.begins
  cases eq

/-- Where the top frame of a compile under a request carries a request, it is that of the compile. -/
theorem Compiles.top {pre fs : List Frame} {f g : Frame} (h : Compiles pre s) (carries : f.request?.isSome = true)
    (held : f :: fs = pre ++ [g]) : pre = [] ∧ f = g ∧ fs = [] := by
  cases pre with
  | nil =>
    obtain ⟨same, none⟩ := List.cons.inj held
    exact ⟨rfl, same, none⟩
  | cons f' rest =>
    obtain ⟨rfl, -⟩ := List.cons.inj held
    simp [h.plain f List.mem_cons_self] at carries

theorem Landing.Compiling.ready {r : Request} {l : Landing} (h : l.Compiling [.holding r])
    {ms : List Mark} {t : TaskId} (mine : Mine ms t r) (started : ∃ time, .started time t r r.text ∈ ms)
    (b : Bench) : l.Ready ms b t (.holds r.slot) := by
  have stage : ∀ {b : Bench} {pre : List Frame} {wait : Wait}, Compiles pre (.value .unit) →
      pre ≠ [] → wait.IsFree → Stage ms b t ⟨pre ++ [.holding r], .value .unit, wait⟩ :=
    fun compiles above loose => .holding mine compiles (.inr ⟨above, trivial⟩) loose started
  cases h with
  | go _ compiles =>
    exact ⟨gripOf_holding _ r, .holding mine compiles (.inl rfl) ⟨nofun, nofun⟩ started,
      fun _ _ text _ => compiles.onward text⟩
  | park _ compiles above f =>
    exact ⟨gripOf_holding _ r, nofun, stage compiles above ⟨nofun, nofun⟩⟩
  | turn _ compiles above => exact ⟨gripOf_holding _ r, stage compiles above ⟨nofun, nofun⟩⟩
  | timed _ compiles above waits n =>
    refine ⟨gripOf_holding _ r, waits, stage compiles above ?_⟩
    rcases waits with rfl | ⟨f, rfl⟩
    · exact ⟨nofun, nofun⟩
    · exact ⟨nofun, nofun⟩

/-! ### Where the running task is -/

section
variable {ms : List Mark} {b : Bench} {t : TaskId} {fs : List Frame} {s : Signal} {r : Request}

/-- What a running task has to do aside it does without a request, or in the midst of a compile. -/
theorem Stage.at_aside (h : Stage ms b t ⟨fs, s, .running⟩) (aside : World.IsAside fs s) :
    Plain fs ∨ ∃ r, Mine ms t r ∧
      (fs = [.holding r] ∧ s = .start (.compile r.text) ∨ ∃ pre, fs = pre ++ [.holding r] ∧
        Compiles pre s ∧ (pre = [] → ¬ s.IsEnd) ∧ ∃ time, .started time t r r.text ∈ ms) := by
  cases h with
  | plain free => exact .inl free
  | fresh =>
    rcases aside.1 with given | ⟨p, eq⟩
    · cases given
    · cases eq
  | asked mine => exact .inr ⟨_, mine, .inl ⟨rfl, rfl⟩⟩
  | @holding r pre _ _ mine compiles _ _ begun =>
    refine .inr ⟨r, mine, .inr ⟨pre, rfl, compiles, ?_, begun⟩⟩
    rintro rfl ends
    cases s with
    | start => exact ends
    | value | fault | cancelled => cases aside (.holding r) rfl
  | rested => cases aside (.quiet _) rfl
  | dropped => cases aside (.quiet _) rfl
  | called => cases aside (.queueing _) rfl
  | leaving => cases aside (.queueing _) rfl

/-- Only the task of a request begins its work, and nothing is below. -/
theorem Stage.at_background (h : Stage ms b t ⟨fs, .start (.background r), .running⟩) :
    fs = [] ∧ Mine ms t r ∧ ¬ HasStarted ms t := by
  cases h with
  | plain _ other => exact absurd rfl (other r)
  | fresh mine new => exact ⟨rfl, mine, new⟩
  | holding _ compiles =>
    obtain ⟨p, eq⟩ := compiles.begins
    cases eq

/-- A task that edits or closes has no request. -/
theorem Stage.at_start {op : Op} (h : Stage ms b t ⟨fs, .start op, .running⟩) (public_ : op.IsPublic)
    (other : ∀ text, op ≠ .compile text) : Plain fs := by
  cases h with
  | plain free => exact free
  | fresh => cases public_
  | asked => exact absurd rfl (other _)
  | holding _ compiles =>
    obtain ⟨p, rfl⟩ := compiles.begins
    cases public_

theorem Stage.at_quiet (h : Stage ms b t ⟨.quiet r :: fs, s, .running⟩) :
    fs = [] ∧ (s = .cancelled ∨ (∃ v, s = .value v) ∧ Mine ms t r ∧ ¬ HasStarted ms t ∧
      Rested ms t b.quiet b.clock) := by
  generalize held : (Frame.quiet r :: fs) = gs at h
  cases h with
  | plain free => cases free (.quiet r) (held ▸ List.mem_cons_self)
  | fresh => cases held
  | rested mine new rested =>
    obtain ⟨⟨rfl⟩, rfl⟩ := List.cons.inj held
    exact ⟨rfl, .inr ⟨⟨_, rfl⟩, mine, new, rested⟩⟩
  | dropped =>
    obtain ⟨⟨rfl⟩, rfl⟩ := List.cons.inj held
    exact ⟨rfl, .inl rfl⟩
  | called => cases held
  | leaving => cases held
  | asked => cases held
  | holding _ compiles =>
    obtain ⟨-, eq, -⟩ := compiles.top rfl held
    cases eq

theorem Stage.at_queueing (h : Stage ms b t ⟨.queueing r :: fs, s, .running⟩) :
    fs = [] ∧ (s = .cancelled ∨ (∃ v, s = .value v) ∧ Mine ms t r ∧ ¬ HasStarted ms t ∧
      Rested ms t b.quiet b.clock ∧ ∃ l, b.locks[r.slot]? = some l ∧ (t, .called) ∈ l.queue) := by
  generalize held : (Frame.queueing r :: fs) = gs at h
  cases h with
  | plain free => cases free (.queueing r) (held ▸ List.mem_cons_self)
  | fresh => cases held
  | rested => cases held
  | dropped => cases held
  | called mine new rested _ entry =>
    obtain ⟨⟨rfl⟩, rfl⟩ := List.cons.inj held
    exact ⟨rfl, .inr ⟨⟨_, rfl⟩, mine, new, rested, entry⟩⟩
  | leaving =>
    obtain ⟨⟨rfl⟩, rfl⟩ := List.cons.inj held
    exact ⟨rfl, .inl rfl⟩
  | asked => cases held
  | holding _ compiles =>
    obtain ⟨-, eq, -⟩ := compiles.top rfl held
    cases eq

theorem Stage.at_holding (h : Stage ms b t ⟨.holding r :: fs, s, .running⟩) :
    fs = [] ∧ Mine ms t r ∧ (s = .start (.compile r.text) ∧ ¬ HasStarted ms t ∧
      Rested ms t b.quiet b.clock ∨ Compiles [] s) := by
  generalize held : (Frame.holding r :: fs) = gs at h
  cases h with
  | plain free => cases free (.holding r) (held ▸ List.mem_cons_self)
  | fresh => cases held
  | rested => cases held
  | dropped => cases held
  | called => cases held
  | leaving => cases held
  | asked mine new rested =>
    obtain ⟨⟨rfl⟩, rfl⟩ := List.cons.inj held
    exact ⟨rfl, mine, .inl ⟨rfl, new, rested⟩⟩
  | holding mine compiles =>
    obtain ⟨rfl, ⟨rfl⟩, rfl⟩ := compiles.top rfl held
    exact ⟨rfl, mine, .inr compiles⟩

end
end InkPreview.Live
