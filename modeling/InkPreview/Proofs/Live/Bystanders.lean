import InkPreview.Proofs.Live.SingleFlight
/-!
Bystanders. What is done to a task by the steps of others: it may be watched or asked to cancel, and a
nudge may reach it while it waits. Main statement: `Flight.apply_brushes`.
-/
namespace InkPreview.Live

/-- Groups are added; a group keeps its members, and the ends it waits for become no more. -/
def Nearer (xs ys : List Group) : Prop := ∀ (g : GroupId) x, xs[g]? = some x →
  ∃ y, ys[g]? = some y ∧ y.members = x.members ∧ y.missing ≤ x.missing

namespace Nearer
variable {xs ys zs : List Group}

theorem refl (xs : List Group) : Nearer xs xs := fun _ x found => ⟨x, found, rfl, Nat.le_refl _⟩

theorem trans (h : Nearer xs ys) (h' : Nearer ys zs) : Nearer xs zs := by
  intro g x found
  obtain ⟨y, found, members, le⟩ := h g x found
  obtain ⟨z, found, members', le'⟩ := h' g y found
  exact ⟨z, found, members'.trans members, Nat.le_trans le' le⟩

theorem append (xs : List Group) (x : Group) : Nearer xs (xs ++ [x]) := fun _ y found =>
  ⟨y, World.getElem?_concat_iff.2 (.inl found), rfl, Nat.le_refl _⟩

theorem modify (xs : List Group) (g : GroupId) {f : Group → Group}
    (kept : ∀ x, (f x).members = x.members ∧ (f x).missing ≤ x.missing) : Nearer xs (xs.modify g f) := by
  intro i x found
  refine ⟨if g = i then f x else x, ?_, ?_⟩
  · rw [List.getElem?_modify, found]
    split <;> rfl
  · split
    · exact kept x
    · exact ⟨rfl, Nat.le_refl _⟩

end Nearer

namespace World

/-- The task `u` is as it was, but that it may be watched or asked to cancel. -/
structure Spares (u : TaskId) (w v : World) : Prop where
  task : ∀ k, w.tasks[u]? = some k → ∃ k', v.tasks[u]? = some k' ∧ k'.post = k.post ∧ k'.result = k.result ∧
    (k.mustCancel = true → k'.mustCancel = true)
  alarms : ∀ a ∈ v.alarms, a.task = u → a ∈ w.alarms
  groups : Nearer w.groups v.groups

/-- The task `u` is spared, or something reaches a task that waits. -/
inductive Brush (u : TaskId) : World → World → Prop
  | spares {w v : World} (h : Spares u w v) : Brush u w v
  | nudge {w v : World} {H : TaskId → Prop} (h : Nudge H w v) : Brush u w v

def Brushes (u : TaskId) : World → World → Prop := Relation.ReflTransGen (Brush u)

section
variable {ms : List Mark} {b : Bench} {now w v x : World} {t u : TaskId} {k : Task}

namespace Spares

theorem same (tasks : v.tasks = w.tasks) (alarms : v.alarms = w.alarms) (groups : v.groups = w.groups) :
    Spares u w v :=
  ⟨fun k found => ⟨k, tasks ▸ found, rfl, rfl, id⟩, fun _ mem _ => alarms ▸ mem, groups ▸ .refl _⟩

theorem trans (h : Spares u w v) (h' : Spares u v x) : Spares u w x := by
  refine ⟨fun k found => ?_, fun a mem at_u => h.alarms a (h'.alarms a mem at_u) at_u, h.groups.trans h'.groups⟩
  obtain ⟨k', found, post, result, asked⟩ := h.task k found
  obtain ⟨k'', found, post', result', asked'⟩ := h'.task k' found
  exact ⟨k'', found, post'.trans post, result'.trans result, fun must => asked' (asked must)⟩

theorem modifyTask (w : World) (t : TaskId) {f : Task → Task}
    (kept : t = u → ∀ k, (f k).post = k.post ∧ (f k).result = k.result ∧
      (k.mustCancel = true → (f k).mustCancel = true)) : Spares u w (w.modifyTask t f) := by
  refine ⟨fun k found => ?_, fun _ mem _ => mem, .refl _⟩
  by_cases here : t = u
  · exact ⟨f k, by simp [World.modifyTask, here, found], kept here k⟩
  · exact ⟨k, by simp [World.modifyTask, here, found], rfl, rfl, id⟩

theorem other (w : World) {f : Task → Task} (other : t ≠ u) : Spares u w (w.modifyTask t f) :=
  modifyTask w t fun here => absurd here other

theorem add (w : World) (k : Task) : Spares u w { w with tasks := w.tasks ++ [k] } :=
  ⟨fun k found => ⟨k, getElem?_concat_iff.2 (.inl found), rfl, rfl, id⟩, fun _ mem _ => mem, .refl _⟩

theorem wake (w : World) (s : Signal) (other : t ≠ u) : Spares u w (w.wake t s) := by
  have woken : Spares u w (w.modifyTask t fun k => { k with wait := .turn, signal := s }) := .other w other
  exact ⟨woken.task, fun a mem _ => (List.mem_filter.1 mem).1, .refl _⟩

theorem setAlarm (w : World) (n : Nat) (other : t ≠ u) : Spares u w (w.setAlarm t n) := by
  refine ⟨fun k found => ⟨k, found, rfl, rfl, id⟩, fun a mem at_u => ?_, .refl _⟩
  rcases List.mem_append.1 mem with old | new
  · exact old
  · rw [List.mem_singleton.1 new] at at_u
    exact absurd at_u other

theorem enroll (w : World) (t : TaskId) (members : List TaskId) : Spares u w (w.enroll t members) := by
  obtain ⟨ks, js, eq, length, task⟩ := enroll_eq w t members
  rw [eq]
  refine ⟨fun k found => ?_, fun _ mem _ => mem, .append _ _⟩
  have there : u < ks.length := length ▸ (List.getElem?_eq_some_iff.1 found).1
  obtain ⟨x, more, old, watched⟩ := task u _ (List.getElem?_eq_getElem there)
  obtain rfl := Option.some.inj (found.symm.trans old)
  refine ⟨ks[u], List.getElem?_eq_getElem there, ?_⟩
  rw [watched]
  exact ⟨rfl, rfl, id⟩

theorem counted (w : World) (g : GroupId) : Spares u w (w.counted g) :=
  ⟨fun k found => ⟨k, found, rfl, rfl, id⟩, fun _ mem _ => mem, .modify _ g fun _ => ⟨rfl, Nat.sub_le _ _⟩⟩

/-- Somebody else gets its turn. -/
theorem resume (w : World) {k : Task} (found : w.tasks[u]? = some k) (other : k.wait = .turn → t ≠ u) :
    Spares u w (w.resume t) := by
  rcases w.resume_cases t with same | ⟨k', found', turn, eq⟩
  · rw [same]
    exact .same rfl rfl rfl
  · have apart : t ≠ u := by
      rintro rfl
      obtain rfl := Option.some.inj (found.symm.trans found')
      exact other turn rfl
    rw [eq]
    exact (Spares.other w apart).trans (.same rfl rfl rfl)

end Spares

namespace Brushes

theorem refl : Brushes u w w := Relation.ReflTransGen.refl

theorem one (h : Brush u w v) : Brushes u w v := Relation.ReflTransGen.single h

theorem trans (h : Brushes u w v) (h' : Brushes u v x) : Brushes u w x := Relation.ReflTransGen.trans h h'

theorem spares (h : Spares u w v) : Brushes u w v := one (.spares h)

theorem same (tasks : v.tasks = w.tasks) (alarms : v.alarms = w.alarms) (groups : v.groups = w.groups) :
    Brushes u w v := spares (.same tasks alarms groups)

theorem alike (h : w.Alike v) : Brushes u w v := same h.tasks h.alarms h.groups

theorem nudges {H : TaskId → Prop} (h : Nudges H w v) : Brushes u w v :=
  Relation.ReflTransGen.mono (fun _ _ step => .nudge step) _ _ h

theorem keep {P : World → Prop} (spared : ∀ w v, P w → Spares u w v → P v)
    (nudged : ∀ (w v : World) (H : TaskId → Prop), P w → Nudge H w v → P v) (h : Brushes u w v) (hw : P w) :
    P v := by
  induction h with
  | refl => exact hw
  | tail _ step ih =>
    cases step with
    | spares h => exact spared _ _ ih h
    | nudge h => exact nudged _ _ _ ih h

theorem park (w : World) (fs : List Frame) (wait : Wait) (other : t ≠ u) : Brushes u w (w.park t fs wait) := by
  have yielded : Brushes u w (w.yield t fs wait) :=
    (spares (.other w (f := fun k => { k with frames := fs, wait, signal := .value .unit }) other)).trans
      (same rfl rfl rfl)
  rcases park_nudged w t fs wait with eq | nudged
  · exact eq ▸ yielded
  · exact (yielded.trans (spares (.other _ other))).trans (nudges nudged)

theorem stopped (w : World) (t f : TaskId) : Brushes u w (w.stopped t f) := by
  have freed : Spares u w (w.modifyTask f fun k => { k with watchers := [.report t f] }) :=
    .modifyTask w f fun _ _ => ⟨rfl, rfl, id⟩
  exact (spares freed).trans (nudges (cancel_nudges _ f))

end Brushes

theorem Aside.brushes (h : Aside t w v) : Brushes u w v := by
  cases h with
  | alike same => exact .alike same
  | files | call | process | launch => exact .same rfl rfl rfl
  | enroll => exact .spares (.enroll w t _)
  | spawn | follow => exact (Brushes.spares (.add w _)).trans (.same rfl rfl rfl)
  | stop f => exact .stopped w t f
  | forestall p =>
    have begun : Brushes u w (w.spawn (.follow p) fun f => [.report t f]).2 :=
      (Brushes.spares (.add w _)).trans (.same rfl rfl rfl)
    exact begun.trans (.stopped _ t _)

theorem Deeds.brushes (h : now.Deeds w v) (calls : ∀ x, now.Queued x → x ≠ u) : Brushes u w v := by
  induction h with
  | refl => exact .refl
  | tail _ step ih =>
    refine ih.trans ?_
    cases step with
    | aside step => exact step.brushes
    | slots | gauge | render | discard => exact .same rfl rfl rfl
    | call queued => exact .spares (.wake _ _ (calls _ queued))
    | hire => exact (Brushes.spares (.add _ _)).trans (.same rfl rfl rfl)
    | cancel => exact .nudges (cancel_nudges _ _)

theorem land_brushes (w : World) (l : Landing) (other : t ≠ u) : Brushes u w (w.land t l) := by
  cases l with
  | go => exact .same rfl rfl rfl
  | park fs wait => exact .park w fs wait other
  | turn fs => exact (Brushes.park w fs .turn other).trans (.same rfl rfl rfl)
  | timed fs wait n => exact (Brushes.spares (.setAlarm w n other)).trans (.park _ fs wait other)
  | finish r =>
    obtain ⟨f, -, eq⟩ := finish_eq w t r
    rw [World.land, eq]
    exact (Brushes.spares (.other w other)).trans (.same rfl rfl rfl)

theorem Stirs.brushes {i : Input} (h : Stirs i w v) : Brushes u w v := by
  induction h with
  | refl => exact .refl
  | tail _ step ih =>
    refine ih.trans ?_
    cases step with
    | alike same => exact .alike same
    | later | child | enables | dates | taken => exact .same rfl rfl rfl
    | @counts g rest =>
      have taken : ∀ x : World, Brushes u x { x with queue := rest } := fun _ => .same rfl rfl rfl
      exact (taken _).trans (.spares (.counted _ g))
    | nudge step => exact .one (.nudge step)
    | cancel => exact .nudges (cancel_nudges _ _)
    | spawn => exact (Brushes.spares (.add _ _)).trans (.same rfl rfl rfl)

/-! ### Inputs -/

/-- The task takes the step that the input is. -/
def Steps (w : World) (i : Input) (u : TaskId) : Prop := i = .tick ∧ ∃ fs s, w.current = some (u, fs, s)

/-- The task gets its turn. -/
def Turns (w : World) (i : Input) (u : TaskId) : Prop :=
  i = .tick ∧ w.current = none ∧ ∃ rest, w.queue = .resume u :: rest

/-- A task that waits for no lock is in the queue of none. -/
theorem Flight.uncalled (h : Flight ms b w) (found : w.tasks[u]? = some k) (idle : k.wait ≠ .running)
    (loose : ∀ s, k.wait ≠ .lock s) : ∀ x, w.Queued x → x ≠ u := by
  rintro x ⟨y, slot, -, at_y, waits⟩ rfl
  obtain ⟨p, found', -, lock⟩ := h.steady.midst.orderly.queued y slot.lock x .waiting
    (by simp [bench, at_y]) waits
  obtain rfl := Option.some.inj ((h.steady.midst.post_of_task found idle).symm.trans found')
  exact loose y (lock rfl)

/-- Whatever happens only brushes a task that waits for no lock, unless the task steps or gets its
turn. -/
theorem Flight.apply_brushes (h : Flight ms b w) (i : Input) (found : w.tasks[u]? = some k)
    (idle : k.wait ≠ .running) (loose : ∀ s, k.wait ≠ .lock s)
    (waits : k.wait = .turn → ¬ w.Turns i u) : Brushes u w (w.apply i) := by
  have happens := w.apply_happens i
  generalize w.apply i = v at *
  cases happens with
  | @moves t fs s running =>
    have other : t ≠ u := by
      rintro rfl
      exact h.steady.midst.agrees.other found idle t fs s running rfl
    obtain ⟨x, l, deeds, -, eq⟩ := h.sane.reaches running
    rw [eq]
    exact (deeds.brushes (h.uncalled found idle loose)).trans (land_brushes x l other)
  | @resumes t rest idle' queue =>
    have taken : Brushes u w { w with queue := rest } := .same rfl rfl rfl
    exact taken.trans (.spares (.resume _ found fun turn here => waits turn ⟨rfl, idle', rest, here ▸ queue⟩))
  | forgets | subscribes => exact .same rfl rfl rfl
  | launches => exact (Brushes.spares (.add w _)).trans (.same rfl rfl rfl)
  | stirs stirred => exact stirred.brushes

end
end World
end InkPreview.Live
