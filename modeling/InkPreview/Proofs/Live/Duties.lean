import InkPreview.Proofs.Live.Roster
/-!
Duties. Some tasks work for the edits of a slot, others follow a process for a task; which shows in
which tasks they tell of their end. While what is cancelled has such a duty and waits for no group, a
cancellation goes no further than to the task it is meant for. Main statement: `Deeds.treats`.
-/
namespace InkPreview.Live

/-- What a task is there for. -/
inductive Duty
  /-- It compiles the text of an edit of the slot. -/
  | edit (s : SlotId)
  /-- It follows a process for the task. -/
  | follow (t : TaskId)
  deriving DecidableEq

/-- A task that has a duty tells of its end those it is there for before all others. -/
def Task.duty? (k : Task) : Option Duty :=
  match k.watchers.head? with
  | some (.forget s _) => some (.edit s)
  | some (.report t _) => some (.follow t)
  | _ => none

/-- What may be done by a task that has a duty. -/
def Op.IsMild : Op → Prop
  | .close _ | .waitIdle _ | .closeAll | .stop | .handle .. | .converse _ | .together _ => False
  | _ => True

/-- What a subscriber may do to be told by a task that has a duty: take its time, fail, edit, and ask
for what begins no closing and no group. -/
def Action.IsMild : Action → Prop
  | .close => False
  | .ask op => op.IsMild
  | _ => True

def Subscriber.IsMild : Subscriber → Prop
  | .script acts => ∀ n, ∀ a ∈ acts n, a.IsMild
  | .clients => True

def Frame.IsMild : Frame → Prop
  | .acting _ _ todo => ∀ a ∈ todo, a.IsMild
  | .idling _ | .closingAll _ | .stopping | .serving _ | .receiving _ => False
  | _ => True

namespace Duty

/-- The frames of a task with the duty. -/
def MayHold : Duty → Frame → Prop
  | edit _, f => f.IsMild
  | follow _, f => ∃ p, f = .following p

/-- What a task with the duty begins. -/
def MayBegin : Duty → Op → Prop
  | edit _, op => op.IsMild
  | follow _, op => ∃ p, op = .follow p

/-- A place that goes with the duty. Nobody who is there waits for a group. -/
structure Suits (d : Duty) (q : Post) : Prop where
  frames : ∀ f ∈ q.frames, d.MayHold f
  begins : ∀ op, q.signal = .start op → d.MayBegin op
  wait : ∀ g, q.wait ≠ .group g

/-- What goes with a duty does so after the task has been woken, too. -/
theorem Suits.woken {d : Duty} {q q' : Post} (h : d.Suits q) (frames : q'.frames = q.frames)
    (signal : q'.signal = q.signal ∨ q'.signal.IsCalm) (wait : q'.wait = q.wait ∨ q'.wait.IsUp) : d.Suits q' where
  frames := frames ▸ h.frames
  begins op start := by
    rcases signal with same | calm
    · exact h.begins op (same ▸ start)
    · rw [start] at calm
      exact calm.elim
  wait g := by
    rcases wait with same | up | up
    · exact same ▸ h.wait g
    · simp [up]
    · simp [up]

end Duty

/-! ### What is done to a task -/

/-- The task `k` has become `k'`. If it is not `hit` it has not been cancelled. -/
structure Task.Handled (hit : Prop) (k k' : Task) : Prop where
  frames : k'.frames = k.frames
  duty : k'.duty? = k.duty?
  result : k'.result = k.result
  wait : k'.wait = k.wait ∨ k'.wait = .turn
  signal : k'.signal = k.signal ∨ k'.signal.IsCalm
  spared : hit ∧ k.duty? ≠ none ∨ k'.mustCancel = k.mustCancel ∧
    (k'.signal = k.signal ∨ (∃ v, k'.signal = .value v) ∨ ∃ g, k.wait = .group g)

/-- What is true of a task that a step adds. -/
structure Task.Enters (k : Task) : Prop where
  frames : k.frames = []
  asked : k.mustCancel = true → k.duty? ≠ none
  suits : ∀ d, k.duty? = some d → d.Suits k.post

namespace Task.Handled
variable {hit : Prop} {k k' k'' : Task}

theorem refl (k : Task) : k.Handled hit k :=
  ⟨rfl, rfl, rfl, .inl rfl, .inl rfl, .inr ⟨rfl, .inl rfl⟩⟩

theorem trans (h : k.Handled hit k') (h' : k'.Handled hit k'') : k.Handled hit k'' where
  frames := h'.frames.trans h.frames
  duty := h'.duty.trans h.duty
  result := h'.result.trans h.result
  wait := by
    rcases h'.wait with same | turn
    · exact same ▸ h.wait
    · exact .inr turn
  signal := by
    rcases h'.signal with same | calm
    · exact same ▸ h.signal
    · exact .inr calm
  spared := by
    rcases h.spared with struck | ⟨asked, told⟩
    · exact .inl struck
    · rcases h'.spared with ⟨struck, duty⟩ | ⟨asked', told'⟩
      · exact .inl ⟨struck, h.duty ▸ duty⟩
      · refine .inr ⟨asked'.trans asked, ?_⟩
        rcases told' with same | value | ⟨g, group⟩
        · exact same ▸ told
        · exact .inr (.inl value)
        · rcases h.wait with same | turn
          · exact .inr (.inr ⟨g, same ▸ group⟩)
          · cases turn.symm.trans group

theorem mono {hit' : Prop} (h : k.Handled hit k') (more : hit → hit') : k.Handled hit' k' :=
  ⟨h.frames, h.duty, h.result, h.wait, h.signal, h.spared.imp (And.imp more id) id⟩

theorem suits (h : k.Handled hit k') {d : Duty} (suits : d.Suits k.post) : d.Suits k'.post :=
  suits.woken h.frames h.signal (h.wait.imp id .inl)

theorem enters (h : k.Handled hit k') (enters : k.Enters) : k'.Enters where
  frames := h.frames.trans enters.frames
  asked must := by
    rw [h.duty]
    rcases h.spared with ⟨-, duty⟩ | ⟨same, -⟩
    · exact duty
    · exact enters.asked (same ▸ must)
  suits d duty := h.suits (enters.suits d (h.duty ▸ duty))

end Task.Handled

/-- The tasks of `xs` have become those of `ys`, and only those of `H` have been cancelled. -/
structure Treats (H : TaskId → Prop) (xs ys : List Task) : Prop where
  length : xs.length ≤ ys.length
  old : ∀ (u : TaskId) k, xs[u]? = some k → ∃ k', ys[u]? = some k' ∧ k.Handled (H u) k'
  new : ∀ (u : TaskId) k', ys[u]? = some k' → xs.length ≤ u → k'.Enters

namespace Treats
variable {H : TaskId → Prop} {xs ys zs : List Task}

theorem refl (xs : List Task) : Treats H xs xs :=
  ⟨Nat.le_refl _, fun _ k found => ⟨k, found, .refl k⟩,
    fun _ _ found new => absurd (List.getElem?_eq_some_iff.1 found).1 (Nat.not_lt.2 new)⟩

theorem of_eq (h : ys = xs) : Treats H xs ys := by
  rw [h]
  exact refl xs

theorem trans (h : Treats H xs ys) (h' : Treats H ys zs) : Treats H xs zs where
  length := Nat.le_trans h.length h'.length
  old u k found := by
    obtain ⟨k', found', handled⟩ := h.old u k found
    obtain ⟨k'', found'', handled'⟩ := h'.old u k' found'
    exact ⟨k'', found'', handled.trans handled'⟩
  new u k'' found new := by
    by_cases there : u < ys.length
    · obtain ⟨k', found', handled⟩ := h'.old u _ (List.getElem?_eq_getElem there)
      obtain rfl := Option.some.inj (found.symm.trans found')
      exact handled.enters (h.new u _ (List.getElem?_eq_getElem there) new)
    · exact h'.new u k'' found (Nat.le_of_not_lt there)

/-- Only what happens to tasks that were there before counts. -/
theorem mono {H' : TaskId → Prop} (h : Treats H xs ys) (more : ∀ u, u < xs.length → H u → H' u) :
    Treats H' xs ys :=
  ⟨h.length, fun u k found => by
    obtain ⟨k', found', handled⟩ := h.old u k found
    exact ⟨k', found', handled.mono (more u (List.getElem?_eq_some_iff.1 found).1)⟩, h.new⟩

theorem modify (xs : List Task) (u : TaskId) {f : Task → Task}
    (handled : ∀ k, xs[u]? = some k → k.Handled (H u) (f k)) : Treats H xs (xs.modify u f) := by
  refine ⟨by simp, fun i k found => ?_, fun i k' found new => ?_⟩
  · by_cases here : u = i
    · subst here
      exact ⟨f k, by simp [found], handled k found⟩
    · exact ⟨k, by simp [here, found], .refl k⟩
  · have lt := (List.getElem?_eq_some_iff.1 found).1
    rw [List.length_modify] at lt
    exact absurd lt (Nat.not_lt.2 new)

theorem append (xs : List Task) {k : Task} (enters : k.Enters) : Treats H xs (xs ++ [k]) := by
  refine ⟨by simp, fun u k' found => ⟨k', World.getElem?_concat_iff.2 (.inl found), .refl k'⟩,
    fun u k' found new => ?_⟩
  rcases World.getElem?_concat_iff.1 found with old | ⟨-, rfl⟩
  · exact absurd (List.getElem?_eq_some_iff.1 old).1 (Nat.not_lt.2 new)
  · exact enters

end Treats

/-- How a landing leaves the task that lands, as long as nothing was asked of it. -/
def Landing.leave (k : Task) : Landing → Task
  | .go _ _ => k
  | .park fs wait | .timed fs wait _ => { k with frames := fs, wait, signal := .value .unit }
  | .turn fs => { k with frames := fs, wait := .turn, signal := .value .unit }
  | .finish r => { k with frames := [], wait := .ended, mustCancel := false, result := some (World.resultAsked k.mustCancel r) }

theorem Landing.leave_duty (l : Landing) (k : Task) : (l.leave k).duty? = k.duty? := by
  cases l <;> rfl

theorem Landing.now_eq {l : Landing} {t u : TaskId} {fs : List Frame} {s : Signal}
    (h : l.now t = some (u, fs, s)) : u = t ∧ l = .go fs s := by
  cases l with
  | go => simpa [Landing.now, eq_comm, and_assoc] using h
  | park | turn | timed | finish => cases h

/-- A task that lands so does not wait for a group. -/
def Landing.IsLone : Landing → Prop
  | .park _ wait | .timed _ wait _ => ∀ g, wait ≠ .group g
  | _ => True

namespace World

/-- The task has a duty and waits for no group: cancelled, it is cancelled alone. -/
def OnDuty (w : World) (u : TaskId) : Prop :=
  ∃ k, w.tasks[u]? = some k ∧ k.duty? ≠ none ∧ ∀ g, k.wait ≠ .group g

def HasDuty (w : World) (u : TaskId) (d : Duty) : Prop := ∃ k, w.tasks[u]? = some k ∧ k.duty? = some d

/-- The tasks that a step may cancel. -/
def Strikes (w : World) (u : TaskId) : Prop := w.Drops u ∨ ∃ t, w.Follows t u

/-- Whatever a step cancels has a duty and waits for no group. -/
structure Staffed (w : World) : Prop where
  onDuty : ∀ u, w.Strikes u → w.OnDuty u
  attends : ∀ t f, w.Follows t f → w.HasDuty f (.follow t)

section
variable {H : TaskId → Prop} {now w v : World} {t u : TaskId} {k : Task}

theorem OnDuty.treated (h : w.OnDuty u) (treats : Treats H w.tasks v.tasks) : v.OnDuty u := by
  obtain ⟨k, found, duty, wait⟩ := h
  obtain ⟨k', found', handled⟩ := treats.old u k found
  refine ⟨k', found', handled.duty ▸ duty, fun g => ?_⟩
  rcases handled.wait with same | turn
  · exact same ▸ wait g
  · simp [turn]

theorem HasDuty.treated {d : Duty} (h : w.HasDuty u d) (treats : Treats H w.tasks v.tasks) : v.HasDuty u d := by
  obtain ⟨k, found, duty⟩ := h
  obtain ⟨k', found', handled⟩ := treats.old u k found
  exact ⟨k', found', handled.duty.trans duty⟩

/-! ### Nudges -/

theorem handled_woken (k : Task) {hit : Prop} {s : Signal} (told : s.IsCalm)
    (spared : hit ∧ k.duty? ≠ none ∨ (∃ v, s = .value v) ∨ ∃ g, k.wait = .group g) :
    k.Handled hit { k with wait := .turn, signal := s } :=
  ⟨rfl, rfl, rfl, .inr rfl, .inr told, spared.imp id fun spared => ⟨rfl, .inr spared⟩⟩

theorem Nudge.treats (h : Nudge H w v) (staffed : ∀ u k, H u → w.tasks[u]? = some k → k.duty? ≠ none) :
    Treats H w.tasks v.tasks := by
  cases h with
  | ask hit =>
    exact .modify _ _ fun k found => ⟨rfl, rfl, rfl, .inl rfl, .inl rfl, .inl ⟨hit, staffed _ k hit found⟩⟩
  | regroup => exact .refl _
  | detach hit =>
    rw [detach_tasks]
    exact .modify _ _ fun k found => handled_woken k trivial (.inl ⟨hit, staffed _ k hit found⟩)
  | ring | learn | hear =>
    exact .modify _ _ fun k found => handled_woken k trivial (.inr (.inl ⟨_, rfl⟩))
  | join found waits _ ends =>
    refine .modify _ _ fun k found' => handled_woken k ?_ (.inr (.inr ?_))
    · rcases ends with rfl | rfl
      · trivial
      · trivial
    · obtain rfl := Option.some.inj (found.symm.trans found')
      exact ⟨_, waits⟩

theorem Nudges.treats (h : Nudges H w v) (staffed : ∀ u k, H u → w.tasks[u]? = some k → k.duty? ≠ none) :
    Treats H w.tasks v.tasks := by
  refine (h.keep (P := fun x => Treats H w.tasks x.tasks ∧ ∀ u k, H u → x.tasks[u]? = some k → k.duty? ≠ none)
    (fun x y kept step => ?_) ⟨.refl _, staffed⟩).1
  have treated := step.treats kept.2
  refine ⟨kept.1.trans treated, fun u k' hit found => ?_⟩
  have there : u < x.tasks.length := by
    rw [← step.length]
    exact (List.getElem?_eq_some_iff.1 found).1
  obtain ⟨k'', found', handled⟩ := treated.old u _ (List.getElem?_eq_getElem there)
  obtain rfl := Option.some.inj (found.symm.trans found')
  rw [handled.duty]
  exact kept.2 u _ hit (List.getElem?_eq_getElem there)

/-- Cancelled is a task on duty, and no other. -/
theorem OnDuty.cancel (h : w.OnDuty u) : Treats (· = u) w.tasks (w.cancel u).tasks := by
  obtain ⟨k, found, duty, wait⟩ := h
  refine (cancel_alone fun k' g found' => ?_).treats fun x k' here found' => ?_
  · obtain rfl := Option.some.inj (found.symm.trans found')
    exact wait g
  · subst here
    obtain rfl := Option.some.inj (found.symm.trans found')
    exact duty

/-! ### What a step does -/

theorem HasDuty.stopped (h : w.HasDuty u (.follow t)) (onDuty : w.OnDuty u) :
    Treats (· = u) w.tasks (w.stopped t u).tasks := by
  have freed : Treats (· = u) w.tasks (w.modifyTask u fun k => { k with watchers := [.report t u] }).tasks := by
    refine .modify _ u fun k found => ⟨rfl, ?_, rfl, .inl rfl, .inl rfl, .inr ⟨rfl, .inl rfl⟩⟩
    obtain ⟨k', found', duty⟩ := h
    obtain rfl := Option.some.inj (found.symm.trans found')
    exact duty.symm
  exact freed.trans (onDuty.treated freed).cancel

theorem enters_unbound (op : Op) : (⟨[], .start op, .turn, false, [], none⟩ : Task).Enters :=
  ⟨rfl, nofun, nofun⟩

theorem enters_follower (p : ProcessId) (t f : TaskId) :
    (⟨[], .start (.follow p), .turn, false, [.report t f], none⟩ : Task).Enters := by
  refine ⟨rfl, nofun, fun d duty => ?_⟩
  obtain rfl := Option.some.inj duty
  exact ⟨nofun, fun op start => ⟨p, (Signal.start.inj start).symm⟩, nofun⟩

theorem enters_worker (r : Request) (s : SlotId) (t : TaskId) :
    (⟨[], .start (.background r), .turn, false, [.forget s t], none⟩ : Task).Enters := by
  refine ⟨rfl, nofun, fun d duty => ?_⟩
  obtain rfl := Option.some.inj duty
  refine ⟨nofun, fun op start => ?_, nofun⟩
  rw [← Signal.start.inj start]
  trivial

theorem Aside.treats (h : Aside t w v) (onDuty : ∀ f, w.Follows t f → w.OnDuty f ∧ w.HasDuty f (.follow t)) :
    Treats (w.Follows t) w.tasks v.tasks := by
  cases h with
  | alike same => exact .of_eq same.tasks
  | files | call | process | launch => exact .refl _
  | @enroll members there =>
    obtain ⟨ks, js, eq, length, task⟩ := enroll_eq w t members
    rw [eq]
    refine ⟨Nat.le_of_eq length.symm, fun u k found => ?_, fun u k' found new => ?_⟩
    · have there : u < ks.length := length ▸ (List.getElem?_eq_some_iff.1 found).1
      obtain ⟨k', n, old, watched⟩ := task u _ (List.getElem?_eq_getElem there)
      obtain rfl := Option.some.inj (found.symm.trans old)
      refine ⟨_, List.getElem?_eq_getElem there, ?_⟩
      rw [watched]
      refine ⟨rfl, ?_, rfl, .inl rfl, .inl rfl, .inr ⟨rfl, .inl rfl⟩⟩
      -- A task that had nobody to tell of its end has no duty to the group, either.
      cases watchers : k.watchers with
      | nil => cases n <;> simp [Task.duty?, watchers, List.replicate_succ]
      | cons j rest => simp [Task.duty?, watchers]
    · have lt := (List.getElem?_eq_some_iff.1 found).1
      rw [length] at lt
      exact absurd lt (Nat.not_lt.2 new)
  | spawn => exact .append _ (enters_unbound _)
  | follow p => exact .append _ (enters_follower p t w.tasks.length)
  | stop f follows =>
    refine ((onDuty f follows).2.stopped (onDuty f follows).1).mono ?_
    rintro u - rfl
    exact follows
  | forestall p =>
    let k : Task := ⟨[], .start (.follow p), .turn, false, [.report t w.tasks.length], none⟩
    let x := (w.spawn (.follow p) fun f => [.report t f]).2
    have begun : Treats (· = w.tasks.length) w.tasks x.tasks :=
      .append _ (enters_follower p t w.tasks.length)
    have found : x.tasks[w.tasks.length]? = some k := List.getElem?_concat_length
    have attends : x.HasDuty w.tasks.length (.follow t) := ⟨k, found, rfl⟩
    refine (begun.trans (attends.stopped ⟨k, found, nofun, nofun⟩)).mono ?_
    rintro u there rfl
    exact absurd there (Nat.lt_irrefl _)

/-- What a step does before it lands cancels nobody but those it strikes. -/
theorem Deeds.treats (h : now.Deeds now v) (staffed : now.Staffed) : Treats now.Strikes now.tasks v.tasks := by
  induction h with
  | refl => exact .refl _
  | @tail w v deeds step ih =>
    have current : w.current = now.current := Deeds.current deeds
    refine ih.trans ?_
    cases step with
    | @aside _ t step =>
      have same : ∀ f, w.Follows t f → now.Follows t f := by
        rintro f ⟨p, fs, s, running⟩
        exact ⟨p, fs, s, current ▸ running⟩
      refine (step.treats fun f follows => ?_).mono fun f _ follows => .inr ⟨t, same f follows⟩
      exact ⟨(staffed.onDuty f (.inr ⟨t, same f follows⟩)).treated ih,
        (staffed.attends t f (same f follows)).treated ih⟩
    | slots | gauge | render | discard => exact .refl _
    | call => exact .modify _ _ fun k _ => handled_woken k trivial (.inr (.inl ⟨_, rfl⟩))
    | @hire r _ => exact .append _ (enters_worker r r.slot w.tasks.length)
    | @cancel u drops =>
      refine ((staffed.onDuty u (.inl drops)).treated ih).cancel.mono ?_
      rintro _ - rfl
      exact .inl drops

theorem Stirs.treats {i : Input} (h : Stirs i w v) (calm : ∀ u, i ≠ .cancel u) :
    Treats (fun _ => False) w.tasks v.tasks := by
  induction h with
  | refl => exact .refl _
  | tail _ step ih =>
    refine ih.trans ?_
    cases step with
    | alike same => exact .of_eq same.tasks
    | later | child | enables | dates | taken | counts => exact .refl _
    | nudge step => exact step.treats fun _ _ => False.elim
    | cancel eq => exact absurd eq (calm _)
    | spawn => exact .append _ (enters_unbound _)

/-! ### What a landing does -/

theorem park_free (found : w.tasks[t]? = some k) (free : k.mustCancel = false) (fs : List Frame) (wait : Wait) :
    w.park t fs wait = w.yield t fs wait := by
  simp [park, found, free]

theorem park_tasks (found : w.tasks[t]? = some k) (fs : List Frame) {wait : Wait}
    (alone : k.mustCancel = true → k.duty? ≠ none ∧ ∀ g, wait ≠ .group g) :
    let leave (k : Task) : Task := { k with frames := fs, wait, signal := .value .unit }
    (w.park t fs wait).tasks = w.tasks.modify t leave ∨ k.mustCancel = true ∧
      Treats (· = t) (w.tasks.modify t fun k => { leave k with mustCancel := false }) (w.park t fs wait).tasks := by
  intro leave
  cases must : k.mustCancel with
  | false => exact .inl (by rw [park_free found must]; rfl)
  | true =>
    obtain ⟨duty, apart⟩ := alone must
    rcases park_cases w t fs wait with eq | ⟨g, group, -⟩ | ⟨-, -, eq⟩
    · exact .inl (by rw [eq]; rfl)
    · exact absurd group (apart g)
    · refine .inr ⟨rfl, ?_⟩
      let x := (w.yield t fs wait).clearCancel t
      have tasks : x.tasks = w.tasks.modify t fun k => { leave k with mustCancel := false } := by
        simp only [x, clearCancel, World.yield, modifyTask, List.modify_modify_eq]
        rfl
      have cleared : x.OnDuty t := ⟨{ leave k with mustCancel := false }, by simp [tasks, found], duty, apart⟩
      rw [eq, ← tasks]
      exact cleared.cancel

/-- A landing changes nothing but the task that lands, unless that was asked to cancel: then a
cancellation reaches it as it comes to wait. -/
theorem land_tasks (found : w.tasks[t]? = some k) {l : Landing}
    (alone : k.mustCancel = true → k.duty? ≠ none ∧ l.IsLone) :
    (w.land t l).tasks = w.tasks.modify t l.leave ∨ k.mustCancel = true ∧
      Treats (· = t) (w.tasks.modify t fun k => { l.leave k with mustCancel := false }) (w.land t l).tasks := by
  cases l with
  | go =>
    refine .inl (List.ext_getElem? fun i => ?_)
    rw [List.getElem?_modify]
    by_cases here : t = i <;> simp [here, land, World.go, Landing.leave]
  | park fs wait => exact park_tasks found fs alone
  | turn fs => exact park_tasks found fs fun must => ⟨(alone must).1, by simp⟩
  | timed fs wait n => exact park_tasks (w := w.setAlarm t n) found fs alone
  | finish r =>
    refine .inl ?_
    rw [land, finish, enqueueAll, modify_found found]
    simp [modifyTask, modify_found found, found, Landing.leave]

theorem land_other (found : w.tasks[t]? = some k) {l : Landing}
    (alone : k.mustCancel = true → k.duty? ≠ none ∧ l.IsLone) (other : u ≠ t) {x : Task}
    (at_u : w.tasks[u]? = some x) : ∃ x', (w.land t l).tasks[u]? = some x' ∧ x.Handled False x' := by
  rcases land_tasks found alone with eq | ⟨-, treats⟩
  · exact ⟨x, by simp [eq, Ne.symm other, at_u], .refl x⟩
  · obtain ⟨x', at_u', handled⟩ := treats.old u x (by simp [Ne.symm other, at_u])
    exact ⟨x', at_u', handled.mono fun here => other here⟩

end
end World
end InkPreview.Live
