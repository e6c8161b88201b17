import InkPreview.Proofs.Live.Meetings
import InkPreview.Proofs.Live.Unharmed
import InkPreview.Proofs.Live.SelfWait
/-!
Sparing. A step cancels some tasks; as long as each of them waits for no group, no other task is cancelled with them,
even if the running task is one of those whom its own closing cancels. Main statements: `Deeds.unasked`,
`land_unasked` and `beginClose_unasked`.
-/
namespace InkPreview.Live

/-- The task waits for no group, and nobody has asked it to cancel. -/
structure Task.IsUnasked (k : Task) : Prop where
  asked : k.mustCancel = false
  lone : ∀ g, k.wait ≠ .group g
  told : k.wait ≠ .running → k.signal ≠ .cancelled

/-- A task that waits for no group waits for none after what has nobody begin to. -/
theorem Convened.alone {w v : World} (h : Convened w.tasks v.tasks) {u : TaskId} (alone : w.Alone u) : v.Alone u := by
  intro k' g found waits
  rcases h u k' found with apart | ⟨k, old, -, same⟩
  · exact apart.apart g waits
  · exact alone k g old (same ▸ waits)

namespace World

/-- The task `u`, if it is there, is unasked. -/
def Unasked (w : World) (u : TaskId) : Prop := ∀ k, w.tasks[u]? = some k → k.IsUnasked

section
variable {now w v : World} {t u : TaskId} {H : TaskId → Prop} {fs : List Frame} {wait : Wait} {l : Landing}

namespace Unasked

theorem of_eq (h : w.Unasked u) (same : v.tasks = w.tasks) : v.Unasked u := fun k found => h k (same ▸ found)

theorem modify (h : w.Unasked u) {f : Task → Task} (tasks : v.tasks = w.tasks.modify t f)
    (kept : t = u → ∀ k, w.tasks[u]? = some k → k.IsUnasked → (f k).IsUnasked) : v.Unasked u := by
  intro k' found
  rw [tasks, List.getElem?_modify] at found
  obtain ⟨k, old, rfl⟩ := Option.map_eq_some_iff.1 found
  split
  · rename_i here
    exact kept here k old (h k old)
  · exact h k old

theorem append (h : w.Unasked u) {k : Task} (tasks : v.tasks = w.tasks ++ [k]) (unasked : k.IsUnasked) :
    v.Unasked u := by
  intro k' found
  rw [tasks] at found
  rcases getElem?_concat_iff.1 found with old | ⟨-, rfl⟩
  · exact h k' old
  · exact unasked

/-- A task that is woken with a value is unasked still. -/
theorem wake (h : w.Unasked u) (t : TaskId) {s : Signal} (calm : t = u → s ≠ .cancelled) : (w.wake t s).Unasked u :=
  h.modify (wake_tasks w t s) fun here _ _ unasked => ⟨unasked.asked, nofun, fun _ => calm here⟩

theorem nudge (h : w.Unasked u) (step : Nudge H w v) (spared : ¬ H u) : v.Unasked u := by
  cases step with
  | ask hit => exact h.modify rfl fun here => absurd (here ▸ hit) spared
  | regroup => exact h
  | detach hit => exact h.modify (detach_tasks _ _ _) fun here => absurd (here ▸ hit) spared
  | ring | learn | hear => exact h.wake _ fun _ => nofun
  | join found waits =>
    refine h.wake _ ?_
    rintro rfl
    exact absurd waits ((h _ found).lone _)

theorem nudges (h : w.Unasked u) (steps : Nudges H w v) (spared : ¬ H u) : v.Unasked u :=
  steps.keep (P := fun x => x.Unasked u) (fun _ _ unasked step => unasked.nudge step spared) h

/-- Cancelling a task that waits for no group cancels no other. -/
theorem cancel (h : w.Unasked u) (alone : w.Alone t) (other : t ≠ u) : (w.cancel t).Unasked u :=
  h.nudges (cancel_alone fun k g found => alone k g found) (Ne.symm other)

theorem stopped (h : w.Unasked u) (alone : w.Alone t) (other : t ≠ u) (f : TaskId) : (w.stopped f t).Unasked u := by
  have freed : (w.modifyTask t fun k => { k with watchers := [.report f t] }).Unasked u :=
    h.modify rfl fun here => absurd here other
  refine freed.cancel (fun k g found => ?_) other
  simp only [modifyTask, List.getElem?_modify_eq] at found
  obtain ⟨k', old, rfl⟩ := Option.map_eq_some_iff.1 found
  exact alone k' g old

theorem enroll (h : w.Unasked u) (t : TaskId) (members : List TaskId) : (w.enroll t members).Unasked u := by
  obtain ⟨ks, js, eq, -, task⟩ := enroll_eq w t members
  rw [eq]
  intro k' found
  obtain ⟨k, n, old, rfl⟩ := task u k' found
  exact ⟨(h k old).asked, (h k old).lone, (h k old).told⟩

theorem spawn (h : w.Unasked u) (op : Op) (watchers : TaskId → List Job) : (w.spawn op watchers).2.Unasked u :=
  h.append rfl ⟨rfl, nofun, nofun⟩

theorem resume (h : w.Unasked u) (t : TaskId) : (w.resume t).Unasked u := by
  rcases w.resume_cases t with same | ⟨k, -, -, eq⟩
  · exact same.symm ▸ h
  · rw [eq]
    exact h.modify rfl fun _ k _ unasked => ⟨rfl, nofun, fun idle => absurd rfl idle⟩

end Unasked

/-! ### Deeds -/

theorem Aside.unasked (h : Aside t w v) (there : u < w.tasks.length) (unasked : w.Unasked u)
    (spares : ∀ f, w.Follows t f → f ≠ u ∧ w.Alone f) : v.Unasked u := by
  cases h with
  | alike same => exact unasked.of_eq same.tasks
  | files | call | process | launch => exact unasked
  | enroll => exact unasked.enroll t _
  | spawn => exact unasked.spawn _ _
  | follow => exact unasked.spawn _ _
  | stop f follows => exact unasked.stopped (spares f follows).2 (spares f follows).1 t
  | forestall p =>
    refine (unasked.spawn (.follow p) fun f => [.report t f]).stopped ?_ (Nat.ne_of_gt there) t
    intro k g found
    obtain rfl : _ = k := Option.some.inj (List.getElem?_concat_length.symm.trans found)
    exact nofun

/-- A step cancels nobody but those it strikes, if each of them waits for no group. -/
theorem Deeds.unasked (h : now.Deeds now v) (there : u < now.tasks.length) (unasked : now.Unasked u)
    (spares : ∀ f, now.Strikes f → f ≠ u ∧ now.Alone f) : v.Unasked u := by
  induction h with
  | refl => exact unasked
  | @tail x y steps step ih =>
    have still : ∀ {f : TaskId}, now.Alone f → x.Alone f := (Deeds.convened steps).alone
    cases step with
    | @aside _ t step =>
      refine step.unasked (Nat.lt_of_lt_of_le there (Deeds.grown steps).length) ih ?_
      rintro f ⟨p, fs, s, running⟩
      have follows : now.Strikes f := .inr ⟨t, p, fs, s, (Deeds.current steps).symm.trans running⟩
      exact ⟨(spares f follows).1, still (spares f follows).2⟩
    | slots | gauge | render | discard => exact ih
    | call => exact ih.wake _ fun _ => nofun
    | hire => exact ih.spawn _ _
    | cancel drops => exact ih.cancel (still (spares _ (.inl drops)).2) (spares _ (.inl drops)).1

/-- An input other than a cancellation cancels nobody. -/
theorem Stirs.unasked {i : Input} (h : Stirs i w v) (calm : ∀ f, i ≠ .cancel f) (unasked : w.Unasked u) :
    v.Unasked u := by
  induction h with
  | refl => exact unasked
  | tail _ step ih =>
    cases step with
    | alike h => exact ih.of_eq h.tasks
    | later | child | enables | dates | taken | counts => exact ih
    | nudge h => exact ih.nudge h id
    | cancel h => exact absurd h (calm _)
    | spawn => exact ih.spawn _ _

/-! ### Landings -/

theorem park_unasked (asked : ∀ k, w.tasks[t]? = some k → k.mustCancel = false) :
    w.park t fs wait = w.yield t fs wait := by
  have free : (w.tasks[t]?.map (·.mustCancel)).getD false = false := by
    cases found : w.tasks[t]? with
    | none => rfl
    | some k => exact asked k found
  simp [park, free]

/-- A task that nobody has asked to cancel lands without a cancellation of anybody. -/
theorem land_unasked (asked : ∀ k, w.tasks[t]? = some k → k.mustCancel = false) (unasked : w.Unasked u)
    (lone : t = u → l.IsLone ∧ ∀ r, l ≠ .finish r) : (w.land t l).Unasked u := by
  have parks : ∀ {x : World} {wait : Wait} {fs : List Frame}, x.tasks = w.tasks → (t = u → ∀ g, wait ≠ .group g) →
      (x.park t fs wait).Unasked u := by
    intro x wait fs same lone
    rw [park_unasked (same ▸ asked)]
    refine unasked.modify (v := x.yield t fs wait) (t := t) (congrArg (List.modify · t _) same) fun here k _ before => ?_
    exact ⟨before.asked, lone here, fun _ => nofun⟩
  cases l with
  | go => exact unasked
  | park fs wait => exact parks rfl fun here => (lone here).1
  | turn fs => exact (parks rfl fun _ => nofun : (w.park t fs .turn).Unasked u)
  | timed fs wait n => exact parks rfl fun here => (lone here).1
  | finish r =>
    obtain ⟨f, -, eq⟩ := finish_eq w t r
    rw [World.land, eq]
    exact unasked.modify rfl fun here => absurd rfl ((lone here).2 r)

/-! ### A task that closes its own document -/

/-- Whatever is being cancelled already, a task that waits for no group is cancelled alone. -/
theorem cancelWith_nudges (fuel : Nat) (trail : List TaskId) (alone : w.Alone t) :
    Nudges (· = t) w (cancelWith fuel trail t w).2 := by
  cases fuel with
  | zero => exact .refl
  | succ fuel => exact (cancelWith_alone fuel trail fun k g found => alone k g found).1

/-- Cancelling a task that waits for a group with itself among the members cancels these, who wait for no group. -/
theorem Knotted.cancel_unasked {g : GroupId} (h : Knotted t g w) (unasked : w.Unasked u) (other : t ≠ u)
    (apart : ∀ m ∈ w.membersOf g, m ≠ u ∧ (m ≠ t → w.Alone m)) : (w.cancel t).Unasked u := by
  obtain ⟨k, found, waits⟩ := h.1
  have each : (cancelEach (cancelWith w.tasks.length [t]) (w.membersOf g) w).2.Unasked u := by
    refine (cancelEach_keep (P := fun x => x.Unasked u ∧ Knotted t g x ∧ ∀ m ∈ w.membersOf g, m ≠ t → x.Alone m)
      (fun m mem x ⟨unasked, knotted, alone⟩ => ?_) ⟨unasked, h, fun m mem => (apart m mem).2⟩).1
    by_cases here : m = t
    · rw [here, knotted.again _ List.mem_cons_self]
      exact ⟨unasked, knotted, alone⟩
    · have steps := cancelWith_nudges w.tasks.length [t] (alone m mem here)
      exact ⟨unasked.nudges steps (Ne.symm (apart m mem).1), knotted.others _ _ _, fun m' mem' other' =>
        steps.convened.alone (alone m' mem' other')⟩
  unfold cancel cancelling cancelWith
  simp only [found, waits, List.contains_nil, Bool.false_eq_true, if_false]
  generalize cancelEach (cancelWith w.tasks.length [t]) (w.membersOf g) w = p at each ⊢
  obtain ⟨r, v⟩ := p
  cases r with
  | missed => exact each.modify rfl fun here => absurd here other
  | reached | endless => exact each

/-- There is an end to cancelling the tasks of a slot if they wait for no group. -/
theorem closingReach_ends {doc : DocId} {s : SlotId} (apart : ∀ m ∈ w.tasksOf s, w.Alone m) :
    (w.closingReach doc s).1 ≠ .endless := by
  obtain ⟨-, tasks, -, -⟩ := w.removeSlot_rest doc
  refine cancelEach_reaches (P := fun x => ∀ m ∈ w.tasksOf s, x.Alone m) (fun m mem x alone => ⟨fun m' mem' => ?_, ?_⟩)
    fun m mem => (Convened.of_eq tasks).alone (apart m mem)
  · exact (cancel_nudges x m).convened.alone (alone m' mem')
  · exact (cancelling_alone fun k g found => alone m mem k g found).2

/-- A task that closes its own document cancels the slot's tasks, which wait for no group, and nobody else. -/
theorem beginClose_unasked {doc : DocId} {s : SlotId} (registered : w.slotOf? doc = some s) (own : t ∈ w.tasksOf s)
    (there : ∀ m ∈ w.tasksOf s, m < w.tasks.length) (unasked : w.Unasked u) (other : t ≠ u)
    (apart : ∀ m ∈ w.tasksOf s, m ≠ u ∧ w.Alone m) :
    (w.beginClose t fs doc).Unasked u := by
  obtain ⟨-, tasks, -, -⟩ := w.removeSlot_rest doc
  obtain ⟨struck, alone, length⟩ : (w.closingReach doc s).2.Unasked u ∧
    (∀ m ∈ w.tasksOf s, (w.closingReach doc s).2.Alone m) ∧
      (w.closingReach doc s).2.tasks.length = w.tasks.length := by
    refine cancelEach_keep (P := fun x => x.Unasked u ∧ (∀ m ∈ w.tasksOf s, x.Alone m) ∧ x.tasks.length = w.tasks.length)
      (fun m mem x ⟨unasked, alone, length⟩ => ⟨unasked.cancel (alone m mem) (apart m mem).1, fun m' mem' => ?_, ?_⟩)
      ⟨unasked.of_eq tasks, fun m mem => ?_, congrArg List.length tasks⟩
    · exact (cancel_nudges x m).convened.alone (alone m' mem')
    · exact (cancel_nudges x m).length.trans length
    · exact (Convened.of_eq tasks).alone (apart m mem).2
  rw [beginClose_tasks t fs registered (List.ne_nil_of_mem own)]
  dsimp only
  generalize (w.closingReach doc s).2 = x at struck alone length ⊢
  split
  · exact struck
  · let fs' : List Frame := .closing doc (w.tasksOf s).length :: fs
    let g := x.groups.length
    have enrolled : (x.enroll t (w.tasksOf s)).Unasked u := struck.enroll t _
    have apart' : ∀ m ∈ w.tasksOf s, (x.enroll t (w.tasksOf s)).Alone m := fun m mem =>
      (enroll_convened x t _).alone (alone m mem)
    have grouped := enroll_group x t (w.tasksOf s)
    obtain ⟨k, at_t⟩ : ∃ k, (x.enroll t (w.tasksOf s)).tasks[t]? = some k := by
      obtain ⟨ks, js, eq, same, -⟩ := enroll_eq x t (w.tasksOf s)
      refine ⟨_, List.getElem?_eq_getElem ?_⟩
      rw [eq, same, length]
      exact there t own
    generalize x.enroll t (w.tasksOf s) = y at enrolled apart' grouped at_t ⊢
    have yielded : (y.yield t fs' (.group g)).Unasked u := enrolled.modify rfl fun here => absurd here other
    have knotted : Knotted t g ((y.yield t fs' (.group g)).clearCancel t) := by
      refine ⟨⟨{ k with frames := fs', wait := .group g, signal := .value .unit, mustCancel := false }, ?_, rfl⟩, ?_⟩
      · simp [yield, clearCancel, modifyTask, at_t]
      · simpa [membersOf, yield, clearCancel, modifyTask, g, grouped] using own
    have members : ((y.yield t fs' (.group g)).clearCancel t).membersOf g = w.tasksOf s := by
      simp [membersOf, yield, clearCancel, modifyTask, g, grouped]
    have cancelled : (((y.yield t fs' (.group g)).clearCancel t).cancel t).Unasked u := by
      refine knotted.cancel_unasked (yielded.modify rfl fun here => absurd here other) other fun m mem => ?_
      rw [members] at mem
      refine ⟨(apart m mem).1, fun away k g' found => ?_⟩
      have same : ((y.yield t fs' (.group g)).clearCancel t).tasks[m]? = y.tasks[m]? := by
        simp [yield, clearCancel, modifyTask, Ne.symm away]
      exact apart' m mem k g' (same ▸ found)
    rcases park_cases y t fs' (.group g) with eq | ⟨-, -, eq⟩ | ⟨-, -, eq⟩
    · exact eq ▸ yielded
    · rw [eq]
      exact cancelled.modify rfl fun here => absurd here other
    · exact eq ▸ cancelled

end
end World
end InkPreview.Live
