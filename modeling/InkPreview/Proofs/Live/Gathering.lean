import InkPreview.Proofs.Live.Closing
import InkPreview.Proofs.Live.Roster
/-!
Gathering. A task that waits for a group goes on with a value only once all members of the group have
ended. So a closing that returns has outlived all tasks of the slot it has taken away. Main statement:
`Flight.gathered_ended`.
-/
namespace InkPreview.Live
namespace World

/-- With these frames the task waits for the group, or has been woken since the group is over. -/
inductive Gathers (w : World) (t : TaskId) (fs : List Frame) (g : GroupId) : Prop
  | waits {k : Task} (stays : w.Stays t k) (frames : k.frames = fs) (wait : k.wait = .group g)
  | woken {k : Task} (stays : w.Stays t k) (frames : k.frames = fs) (wait : k.wait = .turn)
      (settled : w.IsOver g) (told : k.signal = .cancelled ∨ k.signal = .value .unit)

/-- The group is over, and the task goes on with these frames. -/
def Gathered (w : World) (t : TaskId) (fs : List Frame) (g : GroupId) : Prop :=
  ∃ s, w.current = some (t, fs, s) ∧ w.IsOver g ∧ (s = .cancelled ∨ s = .value .unit)

/-- The running task does not come back to the frames `fs` until the inputs have been taken, and then
does with the value. -/
def Returns (w : World) (t : TaskId) (fs : List Frame) (inputs : List Input) (r : Value) : Prop :=
  (∀ n < inputs.length, fs.length < ((w.run (inputs.take n)).stackOf t).length) ∧
    (w.run inputs).current = some (t, fs, .value r)

section
variable {ms : List Mark} {b : Bench} {w v : World} {t u : TaskId} {fs : List Frame} {g : GroupId}
  {s : SlotId} {k : Task}

theorem Returns.tail {i : Input} {rest : List Input} {r : Value} (h : w.Returns t fs (i :: rest) r) :
    (w.apply i).Returns t fs rest r :=
  ⟨fun n lt => h.1 (n + 1) (Nat.succ_lt_succ lt), h.2⟩

/-! ### Groups -/

theorem IsOver.nearer (h : w.IsOver g) (nearer : Nearer w.groups v.groups) : v.IsOver g := by
  obtain ⟨x, found, none⟩ := h
  obtain ⟨y, found', -, le⟩ := nearer g x found
  exact ⟨y, found', by omega⟩

theorem Nudge.nearer {H : TaskId → Prop} (h : Nudge H w v) : Nearer w.groups v.groups := by
  cases h with
  | regroup g => exact .modify _ g fun _ => ⟨rfl, Nat.le_refl _⟩
  | @detach t k => cases k.wait <;> exact .refl _
  | ask | ring | join | learn | hear => exact .refl _

theorem Nudges.nearer {H : TaskId → Prop} (h : Nudges H w v) : Nearer w.groups v.groups :=
  h.keep (P := fun x => Nearer w.groups x.groups) (fun _ _ near step => near.trans step.nearer) (.refl _)

theorem Brushes.nearer (h : Brushes u w v) : Nearer w.groups v.groups :=
  h.keep (P := fun x => Nearer w.groups x.groups) (fun _ _ near step => near.trans step.groups)
    (fun _ _ _ near step => near.trans step.nearer) (.refl _)

theorem Deeds.nearer {now : World} (h : now.Deeds w v) : Nearer w.groups v.groups := by
  induction h with
  | refl => exact .refl _
  | tail _ step ih =>
    refine ih.trans ?_
    cases step with
    | aside h => exact (h.brushes (u := 0)).nearer
    | slots | gauge | render | discard | call | hire => exact .refl _
    | cancel => exact (cancel_nudges _ _).nearer

theorem Flight.apply_nearer (h : Flight ms b w) (i : Input) : Nearer w.groups (w.apply i).groups := by
  have happens := w.apply_happens i
  generalize w.apply i = v at *
  cases happens with
  | @moves t fs s running =>
    obtain ⟨x, l, deeds, -, eq⟩ := h.sane.reaches running
    rw [eq]
    exact deeds.nearer.trans (land_brushes x l (Nat.ne_of_lt (Nat.lt_succ_self t))).nearer
  | @resumes t rest =>
    obtain ⟨ks, cur, eq⟩ := resume_eq { w with queue := rest } t
    rw [eq]
    exact .refl _
  | forgets | launches | subscribes => exact .refl _
  | stirs stirred => exact (stirred.brushes (u := 0)).nearer

theorem park_nearer (w : World) (t : TaskId) (fs : List Frame) (wait : Wait) :
    Nearer w.groups (w.park t fs wait).groups := by
  rcases park_nudged w t fs wait with eq | nudges
  · exact eq ▸ .refl _
  · exact nudges.nearer

/-- Of a group that is over all members have ended. -/
theorem ended_of_isOver (balanced : w.ledger.Balanced) (ceased : w.IsOver g) {x : Group}
    (found : w.groups[g]? = some x) (mem : u ∈ x.members) :
    u < w.tasks.length ∧ w.hasEnded u = true := by
  obtain ⟨y, found', none⟩ := ceased
  obtain rfl := Option.some.inj (found.symm.trans found')
  have tally : w.ledger.tally g = x.tally := by simp [ledger, found]
  have listed : u ∈ (w.ledger.tally g).members := by rw [tally]; exact mem
  have missing : (w.ledger.tally g).missing = 0 := by rw [tally]; exact none
  refine ⟨balanced.there g u listed, ?_⟩
  rw [hasEnded_eq, balanced.all_ended missing listed]
  rfl

/-! ### Waiting -/

theorem Stays.woken (h : w.Stays t k) (s : Signal) :
    (w.wake t s).Stays t { k with wait := .turn, signal := s } := by
  obtain ⟨k', found, post, result, asked⟩ := h.task
  refine ⟨⟨{ k' with wait := .turn, signal := s }, by simp [found], ?_, result, asked⟩, fun a mem => ?_⟩
  · have frames : k'.frames = k.frames := congrArg Post.frames post
    simp [Task.post, frames]
  · simpa using (List.mem_filter.1 mem).2

namespace Gathers

theorem spared (h : w.Gathers t fs g) (step : Spares t w v) : v.Gathers t fs g := by
  cases h with
  | waits stays frames wait => exact .waits (stays.spared step) frames wait
  | woken stays frames wait settled told =>
    exact .woken (stays.spared step) frames wait (settled.nearer step.groups) told

theorem nudge {H : TaskId → Prop} (h : w.Gathers t fs g) (step : Nudge H w v) : v.Gathers t fs g := by
  cases h with
  | woken stays frames wait settled told =>
    exact .woken (stays.nudge (.inl wait) step) frames wait (settled.nearer step.nearer) told
  | @waits k stays frames wait =>
    have still : ∀ {v : World}, Spares t w v → v.Gathers t fs g :=
      fun step => .waits (stays.spared step) frames wait
    cases step with
    | ask => exact still (.modifyTask w _ fun _ _ => ⟨rfl, rfl, fun _ => rfl⟩)
    | regroup => exact .waits ⟨stays.task, stays.unalarmed⟩ frames wait
    | @detach u k' _ found loose =>
      have other : u ≠ t := stays.other found fun same => by
        rw [same, wait] at loose
        exact loose
      cases k'.wait with
      | lock s =>
        have marked : (w.modifySlot s fun k => { k with lock := k.lock.mark u .cancelled }).Stays t k :=
          ⟨stays.task, stays.unalarmed⟩
        exact .waits (marked.spared (.wake _ _ other)) frames wait
      | _ => exact still (.wake w _ other)
    | ring set => exact still (.wake w _ (stays.unalarmed _ set))
    | learn found waits | hear found waits =>
      exact still (.wake w _ (stays.other found fun same => by simp [waits, wait] at same))
    | @join u k' g' x found waits settled ends =>
      by_cases here : u = t
      · subst here
        obtain ⟨k'', found', post, -⟩ := stays.task
        obtain rfl := Option.some.inj (found.symm.trans found')
        have same : k'.wait = k.wait := congrArg Post.wait post
        obtain rfl : g' = g := Wait.group.inj (waits.symm.trans (same.trans wait))
        exact .woken (stays.woken x) frames rfl settled ends
      · exact still (.wake w _ here)

theorem brushes (h : w.Gathers t fs g) (steps : Brushes t w v) : v.Gathers t fs g :=
  steps.keep (P := fun x => x.Gathers t fs g) (fun _ _ h step => h.spared step) (fun _ _ _ h step => h.nudge step) h

/-- A task that stops to wait for a group. -/
theorem park (found : w.tasks[t]? = some k) (unalarmed : ∀ a ∈ w.alarms, a.task ≠ t) (fs : List Frame)
    (g : GroupId) : (w.park t fs (.group g)).Gathers t fs g := by
  have yielded : (w.yield t fs (.group g)).Gathers t fs g :=
    .waits (k := { k with frames := fs, wait := .group g, signal := .value .unit })
      ⟨⟨_, by simp [World.yield, World.modifyTask, found], rfl, rfl, id⟩, unalarmed⟩ rfl rfl
  rcases park_nudged w t fs (.group g) with eq | nudges
  · exact eq ▸ yielded
  · have cleared : ((w.yield t fs (.group g)).clearCancel t).Gathers t fs g :=
      .waits (k := { k with frames := fs, wait := .group g, signal := .value .unit, mustCancel := false })
        ⟨⟨_, by simp [World.yield, World.clearCancel, World.modifyTask, found], rfl, rfl, id⟩, unalarmed⟩ rfl rfl
    exact cleared.brushes (.nudges nudges)

theorem not_current (h : w.Gathers t fs g) (flight : Flight ms b w) (fs' : List Frame) (x : Signal) :
    w.current ≠ some (t, fs', x) := by
  have idle : ∀ {k : Task}, w.Stays t k → k.wait ≠ .running → w.current ≠ some (t, fs', x) := by
    intro k stays idle
    obtain ⟨k', found, post, -⟩ := stays.task
    have same : k'.wait = k.wait := congrArg Post.wait post
    exact flight.not_current found (same ▸ idle) fs' x
  cases h with
  | waits stays _ wait | woken stays _ wait => exact idle stays (by simp [wait])

/-- It waits on, or goes on. -/
theorem apply (h : w.Gathers t fs g) (flight : Flight ms b w) (i : Input) :
    (w.apply i).Gathers t fs g ∨ (w.apply i).Gathered t fs g := by
  have brushed : ∀ {k : Task}, w.Stays t k → k.wait ≠ .running → (∀ s, k.wait ≠ .lock s) →
      (k.wait = .turn → ¬ w.Turns i t) → (w.apply i).Gathers t fs g := by
    intro k stays idle loose waits
    obtain ⟨k', found, post, -⟩ := stays.task
    have same : k'.wait = k.wait := congrArg Post.wait post
    rw [← same] at idle loose waits
    exact h.brushes (flight.apply_brushes i found idle loose waits)
  cases h with
  | waits stays frames wait => exact .inl (brushed stays (by simp [wait]) (by simp [wait]) (by simp [wait]))
  | @woken k stays frames wait settled told =>
    by_cases due : w.Turns i t
    · obtain ⟨rfl, idle, rest, queue⟩ := due
      obtain ⟨k', found, post, -⟩ := stays.task
      have turn : k'.wait = .turn := (congrArg Post.wait post).trans wait
      have frames' : k'.frames = fs := (congrArg Post.frames post).trans frames
      have signal : k'.signal = k.signal := congrArg Post.signal post
      have step : w.apply .tick = ({ w with queue := rest } : World).resume t := tick_job idle queue
      have resumed : ({ w with queue := rest } : World).resume t =
          ({ w with queue := rest }.modifyTask t fun k => { k with wait := .running, mustCancel := false }).go t fs
            (if k'.mustCancel then .cancelled else k.signal) := by
        simp only [World.resume, found, turn, if_true, frames', signal]
      refine .inr ⟨if k'.mustCancel then .cancelled else k.signal, ?_, ?_, ?_⟩
      · rw [step, resumed]
        rfl
      · rw [step, resumed]
        exact settled
      · split
        · exact .inl rfl
        · exact told
    · exact .inl (brushed stays (by simp [wait]) (by simp [wait]) fun _ => due)

end Gathers

/-! ### Closings -/

/-- Unless the slot it takes away has no tasks, or cancelling one of them has no end, a closing waits for
the group of these tasks. -/
theorem Flight.close_gathers (h : Flight ms b w) {doc : DocId}
    (running : w.current = some (t, fs, .start (.close doc))) (registered : w.slotOf? doc = some s)
    (busy : w.tasksOf s ≠ []) (ends : (w.closingReach doc s).1 ≠ .endless) : ∃ g x, w.tick.Gathers t
    (.closing doc (w.tasksOf s).length :: fs) g ∧
      w.tick.groups[g]? = some x ∧ x.members = w.tasksOf s := by
  obtain ⟨-, tasks, alarms, -⟩ := w.removeSlot_rest doc
  have midst := h.steady.midst
  rw [running] at midst
  obtain ⟨k, found, runs⟩ := midst.runs
  have alone : (w.removeSlot doc).2.AtWork t := ⟨⟨k, tasks ▸ found, runs⟩, alarms ▸ midst.unalarmed⟩
  have enrolled : ((w.closingReach doc s).2.enroll t (w.tasksOf s)).AtWork t :=
    (alone.nudges (cancelAll_nudges _ (w.tasksOf s))).enroll (w.tasksOf s)
  obtain ⟨k', found', -⟩ := enrolled.task
  have step : w.tick = w.beginClose t fs doc := tick_running running
  rw [step, beginClose_tasks t fs registered busy]
  dsimp only
  rw [if_neg ends]
  obtain ⟨y, at_g, members, -⟩ := park_nearer _ t (.closing doc (w.tasksOf s).length :: fs) (.group _) _ _
    (enroll_group _ t (w.tasksOf s))
  exact ⟨_, y, .park found' enrolled.unalarmed _ _, at_g, members⟩

/-- A closing that waits for a group, or goes on from there, comes back with a value only when all
members have ended. -/
theorem Flight.gathered_ended (h : Flight ms b w) (balanced : w.ledger.Balanced) {doc : DocId} {n : Nat}
    (at_work : w.Gathers t (.closing doc n :: fs) g ∨ w.Gathered t (.closing doc n :: fs) g) {x : Group}
    (found : w.groups[g]? = some x) {inputs : List Input} (allowed : ∀ i ∈ inputs, i.IsPublic)
    {r : Value} (returns : w.Returns t fs inputs r) : ∀ u ∈ x.members, (w.run inputs).hasEnded u = true := by
  induction inputs generalizing ms w x with
  | nil =>
    rcases at_work with gathers | ⟨s, running, -⟩
    · exact absurd returns.2 (gathers.not_current h fs _)
    · have same : Frame.closing doc n :: fs = fs := by
        simpa using congrArg (Option.map (·.2.1)) (running.symm.trans returns.2)
      exact absurd (congrArg List.length same) (by simp)
  | cons i rest ih =>
    have next := h.apply (allowed i (by simp))
    have balanced' := h.apply_balanced balanced i
    obtain ⟨y, found', members, -⟩ := h.apply_nearer i g x found
    have onward : (w.apply i).Gathers t (.closing doc n :: fs) g ∨ (w.apply i).Gathered t (.closing doc n :: fs) g →
        ∀ u ∈ x.members, (w.run (i :: rest)).hasEnded u = true := fun at_work => members ▸
      ih next balanced' at_work found' (fun j mem => allowed j (List.mem_cons_of_mem i mem)) returns.tail
    rcases at_work with gathers | ⟨s, running, settled, told⟩
    · exact onward (gathers.apply h i)
    · by_cases tick : i = .tick
      · subst tick
        -- The closing takes its last step: with nothing left above the frames below, the run is over.
        have step : w.apply .tick = w.move t (.closing doc n :: fs) s := tick_running running
        have popped : ∃ s', (w.apply .tick).current = some (t, fs, s') ∧ (s = .cancelled → s' = .cancelled) := by
          rw [step]
          rcases told with rfl | rfl
          · exact ⟨_, rfl, fun _ => rfl⟩
          · cases doc with
            | name | number | truth => exact ⟨_, rfl, nofun⟩
        obtain ⟨s', popped, cancelled⟩ := popped
        cases rest with
        | cons j rest =>
          have more : fs.length < ((w.run [.tick]).stackOf t).length := returns.1 1 (by simp)
          rw [show (w.run [.tick]).stackOf t = fs from stackOf_running popped] at more
          exact absurd more (Nat.lt_irrefl _)
        | nil =>
          obtain rfl : s' = .value r := by simpa using congrArg (Option.map (·.2.2)) (popped.symm.trans returns.2)
          intro u mem
          obtain ⟨there, ended⟩ := ended_of_isOver balanced settled found mem
          exact h.apply_ended there ended (i := .tick) trivial
      · exact onward (.inr ⟨s, current_apply running tick, settled.nearer (h.apply_nearer i), told⟩)

end
end World
end InkPreview.Live
