import InkPreview.Proofs.Live.Gathering
/-!
Waiting for oneself. A closing waits for all tasks of the slot it has taken away. If it is begun by
one of them, that task waits for a group it is a member of: it never goes on, and cancelling it has
no end. Main statement: `own_close_never_returns`.
-/
namespace InkPreview.Live
namespace World

/-- The task waits for a group it is a member of. -/
def WaitsForItself (w : World) (t : TaskId) : Prop :=
  ∃ k g, w.tasks[t]? = some k ∧ k.wait = .group g ∧ t ∈ w.membersOf g

section
variable {ms : List Mark} {b : Bench} {w v : World} {t u : TaskId} {fs : List Frame} {s : SlotId} {g : GroupId}
  {x : Group}

/-! ### Cancelling has no end -/

/-- The task waits for the group, of which it is a member. -/
def Knotted (t : TaskId) (g : GroupId) (w : World) : Prop :=
  (∃ k, w.tasks[t]? = some k ∧ k.wait = .group g) ∧ t ∈ w.membersOf g

theorem membersOf_nearer (nearer : Nearer w.groups v.groups) (mem : t ∈ w.membersOf g) : t ∈ v.membersOf g := by
  cases found : w.groups[g]? with
  | none => simp [membersOf, found] at mem
  | some x =>
    obtain ⟨y, found', members, -⟩ := nearer g x found
    simp only [membersOf, found, found', Option.map_some, Option.getD_some] at mem ⊢
    exact members ▸ mem

/-- Cancelling the others leaves the task where it is. -/
theorem Knotted.others (h : Knotted t g w) (fuel : Nat) (trail : List TaskId) (u : TaskId) :
    Knotted t g (cancelWith fuel trail u w).2 := by
  have near : ∀ {w v : World} {H : TaskId → Prop}, Nudge H w v → t ∈ w.membersOf g → t ∈ v.membersOf g :=
    fun step => membersOf_nearer step.nearer
  refine cancelWith_keep (P := Knotted t g) ?_ ?_ ?_ fuel trail u w h
  · rintro w u ⟨⟨k, found, waits⟩, mem⟩
    refine ⟨?_, near (.ask (H := anyone) w (t := u) trivial) mem⟩
    simp only [setCancel, modifyTask, List.getElem?_modify, found]
    refine ⟨_, rfl, ?_⟩
    split
    · exact waits
    · exact waits
  · rintro w g' ⟨waits, mem⟩
    exact ⟨waits, near (.regroup (H := anyone) w g') mem⟩
  · rintro w u k' ⟨⟨k, found, waits⟩, mem⟩ found' loose
    refine ⟨⟨k, ?_, waits⟩, near (.detach (H := anyone) w trivial found' loose) mem⟩
    have other : u ≠ t := by
      rintro rfl
      obtain rfl := Option.some.inj (found.symm.trans found')
      rw [waits] at loose
      exact loose
    simp [other, found]

/-- Coming back to a task that is being cancelled and waits for a group, cancelling has no end. -/
theorem Knotted.again (h : Knotted t g w) (fuel : Nat) {trail : List TaskId} (mem : t ∈ trail) :
    cancelWith fuel trail t w = (.endless, w) := by
  obtain ⟨⟨k, found, waits⟩, -⟩ := h
  cases fuel with
  | zero => rfl
  | succ fuel => simp [cancelWith, found, waits, mem]

/-- Cancelling tasks one after the other comes to the task. -/
theorem Knotted.each (h : Knotted t g w) (fuel : Nat) {trail us : List TaskId} (on : t ∈ trail) (mem : t ∈ us) :
    (cancelEach (cancelWith fuel trail) us w).1 = .endless := by
  induction us generalizing w with
  | nil => cases mem
  | cons u rest ih =>
    by_cases endless : (cancelWith fuel trail u w).1 = .endless
    · rw [cancelEach_endless endless]
      exact endless
    · have here : t ≠ u := by
        rintro rfl
        exact endless (congrArg Prod.fst (h.again fuel on))
      rw [cancelEach_onward endless, ih (h.others fuel trail u) ((List.mem_cons.1 mem).resolve_left here), join_endless]

theorem WaitsForItself.endless (h : w.WaitsForItself t) : (w.cancelling t).1 = .endless := by
  obtain ⟨k, g, found, waits, mem⟩ := h
  have knotted : Knotted t g w := ⟨⟨k, found, waits⟩, mem⟩
  have on : t ∈ [t] := List.mem_cons_self
  have members := knotted.each w.tasks.length on mem
  unfold cancelling cancelWith
  simp only [found, waits, List.contains_nil, Bool.false_eq_true, if_false]
  generalize cancelEach (cancelWith w.tasks.length [t]) (w.membersOf g) w = p at members ⊢
  obtain ⟨r, v⟩ := p
  obtain rfl : r = .endless := members
  rfl

/-! ### The task never goes on -/

/-- A group with a member that has not ended is not over. -/
theorem not_over (balanced : w.ledger.Balanced) (found : w.groups[g]? = some x)
    (mem : t ∈ x.members) {k : Task} (at_t : w.tasks[t]? = some k) (goes : k.wait ≠ .ended) : ¬ w.IsOver g := by
  intro settled
  obtain ⟨there, ended⟩ := ended_of_isOver balanced settled found mem
  obtain ⟨k', at_t', ended⟩ := (hasEnded_iff there).1 ended
  obtain rfl := Option.some.inj (at_t.symm.trans at_t')
  exact goes ended

/-- The task waits, with these frames, for the group, of which it is a member. -/
structure Stuck (w : World) (t : TaskId) (fs : List Frame) (g : GroupId) : Prop where
  gathers : w.Gathers t fs g
  waits : ∃ k, w.tasks[t]? = some k ∧ k.wait = .group g ∧ k.frames = fs
  member : ∃ x, w.groups[g]? = some x ∧ t ∈ x.members

/-- A member that is to wait for the group waits indeed: it would be woken only after its own end. -/
theorem Gathers.stuck (h : w.Gathers t fs g) (balanced : w.ledger.Balanced)
    (found : w.groups[g]? = some x) (mem : t ∈ x.members) : w.Stuck t fs g := by
  refine ⟨h, ?_, x, found, mem⟩
  cases h with
  | waits stays frames wait =>
    obtain ⟨k, at_t, post, -⟩ := stays.task
    exact ⟨k, at_t, (congrArg Post.wait post).trans wait, (congrArg Post.frames post).trans frames⟩
  | woken stays frames wait settled =>
    obtain ⟨k, at_t, post, -⟩ := stays.task
    have turn : k.wait = .turn := (congrArg Post.wait post).trans wait
    exact absurd settled (not_over balanced found mem at_t (by simp [turn]))

namespace Stuck

theorem apply (h : w.Stuck t fs g) (flight : Flight ms b w) (balanced : w.ledger.Balanced) {i : Input}
    (allowed : i.IsPublic) : (w.apply i).Stuck t fs g := by
  have next := flight.apply allowed
  have balanced' := flight.apply_balanced balanced i
  obtain ⟨x, found, mem⟩ := h.member
  obtain ⟨y, found', members, -⟩ := flight.apply_nearer i g x found
  have mem' : t ∈ y.members := members ▸ mem
  rcases h.gathers.apply flight i with gathers | ⟨s, running, settled, -⟩
  · exact gathers.stuck balanced' found' mem'
  · obtain ⟨k, at_t, runs⟩ := (next.steady.midst.agrees t).2 ⟨fs, s, running⟩
    exact absurd settled (not_over balanced' found' mem' at_t (by simp [runs]))

theorem run (h : w.Stuck t fs g) (flight : Flight ms b w) (balanced : w.ledger.Balanced) {after : List Input}
    (allowed : ∀ i ∈ after, i.IsPublic) : (w.run after).Stuck t fs g := by
  have kept : ∀ (ns : List Mark) (v : World) (i : Input),
      (Flight ns b v ∧ v.ledger.Balanced) ∧ v.Stuck t fs g → i.IsPublic →
      (Flight (ns ++ v.marks i) b (v.apply i) ∧ (v.apply i).ledger.Balanced) ∧ (v.apply i).Stuck t fs g :=
    fun _ _ i h given => ⟨⟨h.1.1.apply given, h.1.1.apply_balanced h.1.2 i⟩, h.2.apply h.1.1 h.1.2 given⟩
  exact (run_induct (I := fun ns v => (Flight ns b v ∧ v.ledger.Balanced) ∧ v.Stuck t fs g) kept
    ⟨⟨flight, balanced⟩, h⟩ after allowed).2

theorem waitsForItself (h : w.Stuck t fs g) : w.WaitsForItself t := by
  obtain ⟨k, found, waits, -⟩ := h.waits
  obtain ⟨x, at_g, mem⟩ := h.member
  exact ⟨k, g, found, waits, by simpa [membersOf, at_g] using mem⟩

end Stuck

end

/-- A closing waits for every task of the slot it takes away, the task that has begun it included. Begun
by one of those tasks it does not return: either cancelling one of the tasks has no end, and the closing
fails with that at once; or from its first step on, whatever happens, the task waits for itself with the
closing still on its stack, never runs again, and cancelling it has no end. -/
theorem own_close_never_returns {start : World} (new : start.IsNew) {before : List Input}
    (allowed : ∀ i ∈ before, i.IsPublic) {t : TaskId} {fs : List Frame} {doc : DocId} {s : SlotId}
    (running : (start.run before).current = some (t, fs, .start (.close doc)))
    (registered : (start.run before).slotOf? doc = some s) (own : t ∈ (start.run before).tasksOf s)
    {after : List Input} (allowed' : ∀ i ∈ after, i.IsPublic) :
    (((start.run before).closingReach doc s).1 = .endless ∧
      (start.run before).tick.current = some (t, fs, .fault .nestedTooDeep)) ∨
    (((start.run before).run (.tick :: after)).WaitsForItself t ∧
      (∃ k, ((start.run before).run (.tick :: after)).tasks[t]? = some k ∧
        k.frames = .closing doc ((start.run before).tasksOf s).length :: fs) ∧
      (∀ fs' x, ((start.run before).run (.tick :: after)).current ≠ some (t, fs', x)) ∧
      (((start.run before).run (.tick :: after)).cancelling t).1 = .endless) := by
  have flight := run_flight new allowed
  have balanced := run_balanced new allowed
  generalize start.run before = w at *
  have busy : w.tasksOf s ≠ [] := List.ne_nil_of_mem own
  by_cases ends : (w.closingReach doc s).1 = .endless
  · refine .inl ⟨ends, ?_⟩
    have step : w.tick = w.beginClose t fs doc := tick_running running
    rw [step, beginClose_tasks t fs registered busy]
    dsimp only
    rw [if_pos ends]
    rfl
  · obtain ⟨g, x, gathers, at_g, members⟩ := flight.close_gathers running registered busy ends
    have next : Flight _ _ w.tick := flight.apply (i := .tick) trivial
    have balanced' : w.tick.ledger.Balanced := flight.apply_balanced balanced .tick
    have stuck := (gathers.stuck balanced' at_g (members ▸ own)).run next balanced' allowed'
    obtain ⟨k, found, waits, frames⟩ := stuck.waits
    exact .inr ⟨stuck.waitsForItself, ⟨k, found, frames⟩,
      stuck.gathers.not_current (next.run allowed'), stuck.waitsForItself.endless⟩

/-- The small editor with a subscriber that closes the document when it is told of the second
update. -/
def closingSample : World :=
  start ⟨0, .whole 0, false, fun _ => ⟨none, none, 0, 0, [], .missing, false, none⟩⟩ ⟨.ok none, []⟩ (.new "")
    [.script fun n => if n = 2 then [.close] else []]

theorem isNew_closingSample : closingSample.IsNew := by
  refine isNew_start _ _ _ fun x mem => ?_
  obtain rfl := List.mem_singleton.1 mem
  intro n a todo
  by_cases second : n = 2
  · simp [second] at todo
    exact todo ▸ trivial
  · simp [second] at todo

/-- The background task of the edit is about to close the document for the subscriber, and cancelling
the slot's tasks has an end. -/
theorem closing_due :
    (∃ fs, (closingSample.run (editing "Hi" 12)).current = some (1, fs, .start (.close (.name "a")))) ∧
    (closingSample.run (editing "Hi" 12)).slotOf? (.name "a") = some 0 ∧
    (closingSample.run (editing "Hi" 12)).tasksOf 0 = [1] ∧
    ((closingSample.run (editing "Hi" 12)).closingReach (.name "a") 0).1 = .reached := ⟨⟨_, rfl⟩, rfl, rfl, rfl⟩

/-- Told by the background task of an edit, the subscriber has that task wait for itself. -/
theorem own_close_stuck : ((closingSample.run (editing "Hi" 12)).run [.tick, .jump]).WaitsForItself 1 ∧
    (((closingSample.run (editing "Hi" 12)).run [.tick, .jump]).cancelling 1).1 = .endless := by
  obtain ⟨⟨fs, running⟩, registered, tasks, ends⟩ := closing_due
  have own : 1 ∈ (closingSample.run (editing "Hi" 12)).tasksOf 0 := by
    rw [tasks]
    decide
  have later : ∀ i ∈ [Input.jump], i.IsPublic := by simp [Input.IsPublic]
  rcases own_close_never_returns isNew_closingSample (isPublic_editing "Hi" 12) running registered own later with
    ⟨endless, -⟩ | ⟨itself, -, -, endless⟩
  · rw [ends] at endless
    cases endless
  · exact ⟨itself, endless⟩

/-- The tasks a closing waits for do not leave out the one that closes; nothing is left then that
could go on, and cancelling the task has no end. -/
theorem closing_waits_for_closer :
    (∃ fs, (closingSample.run (editing "Hi" 12)).current = some (1, fs, .start (.close (.name "a")))) ∧
    (closingSample.run (editing "Hi" 12)).tasksOf 0 = [1] ∧
    (closingSample.run (editing "Hi" 13)).groups = [⟨[1], 1, 1, false⟩] ∧
    (closingSample.run (editing "Hi" 13)).isQuiescent ∧
    (closingSample.run (editing "Hi" 13)).alarms = [] ∧
    ((closingSample.run (editing "Hi" 13)).cancelling 1).1 = .endless :=
  ⟨closing_due.1, closing_due.2.2.1, rfl, rfl, rfl, rfl⟩

end World
end InkPreview.Live
