import InkPreview.Proofs.Live.Carriers
import InkPreview.Proofs.Live.Followers
import InkPreview.Proofs.Live.Interruption
/-!
Tame runs, in which nobody from outside cancels a task and no open document is closed. Whatever subscribers do, a step
cancels none but a task that waits for quiet, as a newer edit comes, and one that follows a process, for the task it
does that for. Main statements: `Tame.contained` and `Tame.apply`.
-/
namespace InkPreview.Live.World

/-- A task that has been asked to cancel has a duty and does not run; a task that waits with a limit has the process
followed by a task that does nothing else. -/
structure Tame (w : World) : Prop where
  meeting : w.Meeting
  tailed : w.Tailed
  attended : w.Attended
  follows : ∀ t, w.Suited (.follow t)
  asked : ∀ (u : TaskId) k, w.tasks[u]? = some k → k.mustCancel = true → k.duty? ≠ none ∧ k.wait ≠ .running

/-- A task that is registered to wait for quiet does so, for an edit of that slot. -/
def Expects (w : World) : Prop := ∀ (x : SlotId) k u, w.records[x]? = some k → k.pending = some u →
  w.HasDuty u (.edit x) ∧ ∃ q, w.post? u = some q ∧ q.IsResting

/-- The next step does not close an open document. -/
def SparesSlots (w : World) : Prop := ∀ t fs doc, w.current = some (t, fs, .start (.close doc)) → w.slotOf? doc = none

section
variable {ms : List Mark} {b : Bench} {w v : World} {t u f : TaskId} {p : ProcessId} {fs : List Frame} {s : Signal}
  {q : Post} {k : Task} {i : Input} {l : Landing} {ks : List Slot}

/-- A slot that is open after a step has not been closed by it. -/
theorem Sane.spares_slots (h : w.Sane) (unshut : ∀ x, ¬ w.tick.IsShut x) : w.SparesSlots := by
  intro t fs doc running
  cases registered : w.slotOf? doc with
  | none => rfl
  | some x =>
    obtain ⟨a, seat, -, same⟩ := slotOf?_seat registered
    exact absurd (h.close_shuts running seat same) (unshut x)

/-! ### The tasks that a step cancels -/

/-- A task that waits for quiet waits for no group. -/
theorem Flight.resting_alone (h : Flight ms b w) (found : w.post? u = some q) (resting : q.IsResting) : w.Alone u := by
  intro k g at_u waits
  have post := h.steady.midst.post_of_task at_u (by rw [waits]; nofun)
  obtain rfl := Option.some.inj (found.symm.trans post)
  rcases (h.stage found).resting resting with ⟨-, alarm | ⟨-, up⟩⟩ | ⟨-, -, up⟩
  · cases waits.symm.trans alarm
  · rcases up with up | up <;> cases waits.symm.trans up
  · rcases up with up | up <;> cases waits.symm.trans up

/-- A step cancels the task that waits for quiet, as the document is edited, and the task that follows a process for
the running one. -/
theorem strikes_cases (spares : w.SparesSlots) (strikes : w.Strikes u) :
    (∃ t fs doc text x k, w.current = some (t, fs, .start (.edit doc text)) ∧ w.slotOf? doc = some x ∧
      w.records[x]? = some k ∧ k.pending = some u) ∨ ∃ t p fs s, w.current = some (t, .limited p u :: fs, s) := by
  rcases strikes with drops | ⟨t, p, fs, s, running⟩
  · cases drops with
    | @pending t fs doc text x k _ running registered found pending =>
      exact .inl ⟨t, fs, doc, text, x, k.unlocked, running, registered, by rw [records_getElem?, found]; rfl, pending⟩
    | member running registered => exact nomatch (spares _ _ _ running).symm.trans registered
  · exact .inr ⟨t, p, fs, s, running⟩

namespace Tame

/-- A step does not cancel the task that takes it. -/
theorem unstruck (h : w.Tame) (flight : Flight ms b w) (expects : w.Expects) (spares : w.SparesSlots)
    (running : w.current = some (t, fs, s)) : ¬ w.Strikes t := by
  intro strikes
  rcases strikes_cases spares strikes with ⟨t', fs', doc, text, x, k, running', -, found, pending⟩ | ⟨t', p, fs', s', running'⟩
  · cases running.symm.trans running'
    obtain ⟨-, q, at_t, resting⟩ := expects x k t found pending
    exact flight.rests_still at_t resting (by simp) running
  · cases running.symm.trans running'
    have tails := h.tailed.limiting t _ s p t running List.mem_cons_self
    obtain ⟨p', eq⟩ := (tails.running _ _ running).frames _ List.mem_cons_self
    cases eq

/-- A task that a step cancels has a duty, and waits for no group. -/
theorem staffed (h : w.Tame) (flight : Flight ms b w) (expects : w.Expects) (spares : w.SparesSlots) : w.Staffed := by
  refine ⟨fun u strikes => ?_, fun t f ⟨p, fs, s, running⟩ => h.attended.limiting t _ s p f running List.mem_cons_self⟩
  rcases strikes_cases spares strikes with ⟨t, fs, doc, text, x, k, -, -, found, pending⟩ | ⟨t, p, fs, s, running⟩
  · obtain ⟨⟨k', at_u, duty⟩, q, post, resting⟩ := expects x k u found pending
    exact ⟨k', at_u, by simp [duty], fun g => flight.resting_alone post resting k' g at_u⟩
  · obtain ⟨k, at_u, duty⟩ := h.attended.limiting t _ s p u running List.mem_cons_self
    have tails := h.tailed.limiting t _ s p u running List.mem_cons_self
    exact ⟨k, at_u, by simp [duty], (flight.follower_alone h.meeting tails at_u).2⟩

theorem contained (h : w.Tame) (flight : Flight ms b w) (expects : w.Expects) (spares : w.SparesSlots) :
    w.Contained := by
  refine ⟨h.staffed flight expects spares, fun t fs s k l ks running found told _ => ?_⟩
  rcases told with must | strikes
  · obtain ⟨k', found', runs⟩ := (flight.steady.midst.agrees t).2 ⟨fs, s, running⟩
    obtain rfl := Option.some.inj (found.symm.trans found')
    exact absurd runs (h.asked t k found must).2
  · exact absurd strikes (h.unstruck flight expects spares running)

/-! ### Steps -/

theorem moved_asked {ms' : List Mark} (h : w.Tame) (flight : Flight ms b w) (next : Flight ms' b v)
    (running : w.current = some (t, fs, s)) (moved : w.Moved v t l) (unstruck : ¬ w.Strikes t) {k' : Task}
    (found : v.tasks[u]? = some k') (must : k'.mustCancel = true) : k'.duty? ≠ none ∧ k'.wait ≠ .running := by
  by_cases here : u = t
  · subst here
    obtain ⟨k, at_u, runs⟩ := (flight.steady.midst.agrees u).2 ⟨fs, s, running⟩
    have free : k.mustCancel ≠ true := fun must => (h.asked u k at_u must).2 runs
    obtain ⟨k₁, k₂, handled, found', left⟩ := moved.own k at_u
    obtain rfl := Option.some.inj (found.symm.trans found')
    have free' : k₁.mustCancel ≠ true := by
      rcases handled.spared with ⟨struck, -⟩ | ⟨same, -⟩
      · exact absurd struck unstruck
      · exact same ▸ free
    rcases left with rfl | ⟨must', -⟩
    · cases l with
      | go | park | turn | timed => exact absurd must free'
      | finish => cases must
    · exact absurd must' free'
  · have still : k'.wait ≠ .running := by
      intro runs
      obtain ⟨fs', s', now⟩ := (next.steady.midst.agrees u).1 ⟨k', found, runs⟩
      exact here (Landing.now_eq (moved.current.symm.trans now)).1
    refine ⟨?_, still⟩
    by_cases old : u < w.tasks.length
    · obtain ⟨k₁, found', handled⟩ := moved.old u _ here (List.getElem?_eq_getElem old)
      obtain rfl := Option.some.inj (found.symm.trans found')
      rcases handled.spared with ⟨-, duty⟩ | ⟨same, -⟩
      · exact handled.duty ▸ duty
      · exact handled.duty ▸ (h.asked u _ (List.getElem?_eq_getElem old) (same ▸ must)).1
    · exact (moved.new u k' found (Nat.le_of_not_lt old)).asked must

theorem move (h : w.Tame) (flight : Flight ms b w) (expects : w.Expects) (spares : w.SparesSlots)
    (running : w.current = some (t, fs, s)) : (w.move t fs s).Tame := by
  have step : w.apply .tick = w.move t fs s := tick_running running
  have next : Flight (ms ++ w.marks .tick) b (w.apply .tick) := flight.apply trivial
  have meeting := flight.sane.apply_meeting h.meeting .tick
  have tailed := flight.apply_tailed h.tailed .tick
  rw [step] at next meeting tailed
  obtain ⟨l, ks, lands, moved⟩ := (h.contained flight expects spares).moved flight running
  have there := flight.there running
  have asked : ∀ k, w.tasks[t]? = some k → k.mustCancel = true → k.duty? ≠ none := fun k found must =>
    (h.asked t k found must).1
  refine ⟨meeting, tailed, h.attended.move running lands moved there asked, fun x => ?_, fun u k' found must =>
    h.moved_asked flight next running moved (h.unstruck flight expects spares running) found must⟩
  refine (h.follows x).move moved there fun k found duty => ?_
  have suits := (h.follows x).running t fs s k running found duty
  exact lands.follows suits.frames suits.begins

theorem treated (h : w.Tame) (flight : Flight ms b w) (meeting : v.Meeting) (tailed : v.Tailed)
    (treats : Treats (fun _ => False) w.tasks v.tasks) (current : v.current = w.current) {ms' : List Mark}
    (next : Flight ms' b v) : v.Tame := by
  have there : ∀ t fs s, w.current = some (t, fs, s) → t < w.tasks.length := fun t fs s => flight.there
  refine ⟨meeting, tailed, h.attended.treated treats current, fun x => (h.follows x).treated there treats current,
    fun u k' found must => ?_⟩
  have kept : ∀ {k : Task}, w.tasks[u]? = some k → k.Handled False k' → k.mustCancel = true := by
    intro k at_u handled
    rcases handled.spared with ⟨never, -⟩ | ⟨same, -⟩
    · exact never.elim
    · exact same ▸ must
  refine ⟨?_, fun runs => ?_⟩
  · rcases treats_task treats found with ⟨k, at_u, handled⟩ | enters
    · exact handled.duty ▸ (h.asked u k at_u (kept at_u handled)).1
    · exact enters.asked must
  · obtain ⟨fs, s, now⟩ := (next.steady.midst.agrees u).1 ⟨k', found, runs⟩
    obtain ⟨k, at_u, runs'⟩ := (flight.steady.midst.agrees u).2 ⟨fs, s, current ▸ now⟩
    obtain ⟨k'', found', handled⟩ := treats.old u k at_u
    obtain rfl := Option.some.inj (found.symm.trans found')
    exact (h.asked u k at_u (kept at_u handled)).2 runs'

/-- Whatever happens, as long as nobody from outside cancels a task and no open document is closed, nobody else is
cancelled. -/
theorem apply (h : w.Tame) (flight : Flight ms b w) (allowed : i.IsPublic) (calm : ∀ u, i ≠ .cancel u)
    (guarded : i = .tick → w.Expects ∧ w.SparesSlots) : (w.apply i).Tame := by
  have next := flight.apply allowed
  have meeting := flight.sane.apply_meeting h.meeting i
  have tailed := flight.apply_tailed h.tailed i
  have happens := w.apply_happens i
  generalize w.apply i = v at *
  cases happens with
  | moves running => exact h.move flight (guarded rfl).1 (guarded rfl).2 running
  | @resumes t rest idle =>
    have attended : ({ w with queue := rest } : World).Attended := ⟨h.attended.limited, h.attended.limiting⟩
    have follows : ∀ x, ({ w with queue := rest } : World).Suited (.follow x) := fun x =>
      ⟨(h.follows x).suits, (h.follows x).running⟩
    refine ⟨meeting, tailed, attended.resume t, fun x => (follows x).resume t, fun u k' at_u must => ?_⟩
    rcases ({ w with queue := rest } : World).resume_cases t with same | ⟨k, found, -, eq⟩
    · rw [same] at at_u
      exact h.asked u k' at_u must
    · rw [eq] at at_u
      obtain ⟨k₁, old, rfl | rfl, -⟩ := resumed_task at_u
      · exact h.asked u _ old must
      · cases must
  | forgets | subscribes => exact h.treated flight meeting tailed (.of_eq rfl) rfl next
  | launches =>
    refine ⟨meeting, tailed, h.attended.launch _, fun x => (h.follows x).launch _, fun u k' found must => ?_⟩
    rcases getElem?_concat_iff.1 found with old | ⟨-, rfl⟩
    · exact h.asked u k' old must
    · cases must
  | stirs stirs => exact h.treated flight meeting tailed (stirs.treats calm) stirs.rest.2.2.2.1 next

end Tame

theorem IsNew.tame (new : w.IsNew) : w.Tame where
  meeting := by simp [Meeting, new.tasks]
  tailed := ⟨by simp [new.tasks], by simp [new.current]⟩
  attended := ⟨by simp [new.tasks], by simp [new.current]⟩
  follows _ := ⟨by simp [new.tasks], by simp [new.current]⟩
  asked := by simp [new.tasks]

end
end InkPreview.Live.World
