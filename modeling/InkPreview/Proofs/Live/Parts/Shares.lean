import InkPreview.Proofs.Live.Parts.Alarms
import InkPreview.Proofs.Live.Parts.Steps
import Mathlib.Data.List.Nodup
/-!
Shares. Of what happens to the whole, each part has its share: the steps of its own tasks, what is begun for its own
documents, and the time that passes. Main statement: `Joint.apply`.
-/
namespace InkPreview.Live

open Classical in
/-- The number that `p` takes to `n`, if there is one. -/
noncomputable def pre (p : Nat → Nat) (n : Nat) : Option Nat := if h : ∃ i, p i = n then some h.choose else none

theorem pre_self {p : Nat → Nat} (inj : Function.Injective p) (i : Nat) : pre p (p i) = some i := by
  have there : ∃ j, p j = p i := ⟨i, rfl⟩
  rw [pre, dif_pos there]
  exact congrArg some (inj there.choose_spec)

theorem pre_other {p : Nat → Nat} {n : Nat} (other : ∀ i, p i ≠ n) : pre p n = none :=
  dif_neg fun ⟨i, here⟩ => other i here

/-- The operation names a document of the part, or the part has what names none. -/
def Op.Belongs (e : Inlay) : Op → Prop
  | .edit doc _ | .close doc | .waitIdle doc | .reportedEdit doc _ => e.docs doc
  | .exportAs doc .. => e.docs (.name doc)
  | _ => e.loose

theorem Op.IsPublic.via {op : Op} (h : op.IsPublic) (e : Inlay) : op.via e = op := by
  cases h <;> rfl

theorem Op.Belongs.isOf {e : Inlay} {op : Op} (h : op.Belongs e) (given : op.IsPublic) (of : op.IsOf fun _ => True) :
    op.IsOf e.docs := by
  cases given with
  | edit | close | reportedEdit | waitIdle => exact h
  | compile | exportAs | sleep => trivial
  | closeAll | stop | handle | converse | send | request | together => exact of.elim

theorem Inlay.Apart.belongs {e f : Inlay} (h : e.Apart f) (op : Op) : op.Belongs e ↔ ¬ op.Belongs f := by
  cases op <;> first | exact h.docs _ | exact h.loose

theorem Inlay.Apart.side {e f : Inlay} (h : e.Apart f) (op : Op) :
    op.Belongs e ∧ ¬ op.Belongs f ∨ ¬ op.Belongs e ∧ op.Belongs f := by
  have alone := h.belongs op
  tauto

/-- A job is of one of the parts. -/
theorem Inlay.Apart.job {e f : Inlay} (h : e.Apart f) (j : Job) : j.isOf e = true ∨ j.isOf f = true := by
  cases j with
  | resume | forget | report => exact (h.task.cover _).imp among_iff.2 among_iff.2
  | joined => exact (h.group.cover _).imp among_iff.2 among_iff.2

namespace World

/-- Whether the next step is the part's. -/
noncomputable def isTurnOf (w : World) (e : Inlay) : Bool :=
  match w.current, w.queue with
  | some (t, _, _), _ => among e.task t
  | none, j :: _ => j.isOf e
  | none, [] => false

/-- The tasks whose alarms ring as time passes until the next alarm. -/
def dueTasks (w : World) : List TaskId := (w.alarms.filter (·.due ≤ w.jump.clock)).map (·.task)

/-- What a part has of an input. -/
noncomputable def share (w : World) (e : Inlay) : Input → List Input
  | .tick => if w.isTurnOf e then [.tick] else []
  | .jump =>
    if w.isQuiescent then .pass (w.jump.clock - w.clock) :: (w.dueTasks.filterMap (pre e.task)).map .ring else []
  | .ring t => (pre e.task t).toList.map .ring
  | .begin op => if w.current.isNone && truth (op.Belongs e) then [.begin op] else []
  | .queue op => if truth (op.Belongs e) then [.queue op] else []
  | .cancel t => if w.current.isNone then (pre e.task t).toList.map .cancel else []
  | .subscribe y => [.subscribe (y.via (e.call w.subscribers.length))]
  | i => [i]

/-- What a part has of a run. -/
noncomputable def shares (w : World) (e : Inlay) : List Input → List Input
  | [] => []
  | i :: rest => w.share e i ++ (w.apply i).shares e rest

/-- The input is done on behalf of the part, and may take up numbers. -/
def Acts (w : World) (e : Inlay) : Input → Prop
  | .tick => ∃ t fs x, w.current = some (e.task t, fs, x)
  | .begin op | .queue op => op.Belongs e
  | _ => False

/-- The editor `w` in two parts, of which at most one has a task that runs. -/
structure Joint (e f : Inlay) (w v u : World) : Prop where
  apart : e.Apart f
  mine : Inlaid e w v
  other : Inlaid f w u
  current : u.current = none ∧ w.current = v.current.map (fun p => (e.task p.1, p.2.1.map (·.via e), p.2.2.via e)) ∨
    v.current = none ∧ w.current = u.current.map fun p => (f.task p.1, p.2.1.map (·.via f), p.2.2.via f)

section
variable {e f : Inlay} {w v u : World} {t : TaskId} {fs : List Frame} {x : Signal} {i : Input}

namespace Parted

theorem joint (h : Parted e f w v u) : Joint e f w v u := ⟨h.apart, h.mine, h.other, .inl ⟨h.idle, h.current⟩⟩

theorem ringTask (h : Parted e f w v u) (t : TaskId) : Parted e f (w.ringTask (e.task t)) (v.ringTask t) u := by
  have found : w.alarms.find? (·.task == e.task t) = (v.alarms.find? (·.task == t)).map (Alarm.via e) := by
    have only : w.alarms.find? (·.task == e.task t) = (w.alarms.filter fun a => among e.task a.task).find? (·.task == e.task t) := by
      rw [List.find?_filter]
      refine congrArg (w.alarms.find? ·) (funext fun a => ?_)
      by_cases here : a.task = e.task t
      · simp [here]
      · simp [here]
    rw [only, h.mine.alarms, List.find?_map]
    refine congrArg (Option.map _) (congrArg (v.alarms.find? ·) (funext fun a => ?_))
    have inj : e.task a.task = e.task t ↔ a.task = t := h.apart.task.left.injective.eq_iff
    rw [Bool.eq_iff_iff]
    simp [Alarm.via, inj]
  have due : w.dueAlarm? (e.task t) = (v.dueAlarm? t).map (Alarm.via e) := by
    rw [World.dueAlarm?, World.dueAlarm?, found, h.mine.clock]
    cases v.alarms.find? (·.task == t) with
    | none => rfl
    | some a =>
      by_cases past : a.due ≤ w.clock
      · simp [Option.filter, Alarm.via, past]
      · simp [Option.filter, Alarm.via, past]
  unfold World.ringTask
  rw [due]
  cases first : v.dueAlarm? t with
  | none => exact h
  | some a =>
    have among : ∀ {x : World} {t : TaskId} {a : Alarm}, x.dueAlarm? t = some a → x.alarms.contains a = true := by
      intro x t a first
      obtain ⟨found, -⟩ := Option.filter_eq_some_iff.1 first
      simpa using List.mem_of_find?_eq_some found
    rw [first] at due
    simp only [Option.map_some, World.ring, among first, among due, if_true]
    exact h.wake a.task (x := .value .unit) rfl

theorem launch (h : Parted e f w v u) {op : Op} (given : op.IsPublic) (here : ∃ i, e.task i = w.tasks.length) :
    Parted e f (w.launch op).2 (v.launch op).2 u := by
  have next := h.mine.tasks.next h.apart.task.left here
  have new : (⟨[], .start op, .running, false, [], none⟩ : Task) = Task.via e ⟨[], .start op, .running, false, [], none⟩ := by
    simp [Task.via, Signal.via, Wait.via, given.via]
  exact
    { apart := h.apart
      mine := { h.mine with
        tasks := by
          have added := h.mine.tasks.append h.apart.task.left here ⟨[], .start op, .running, false, [], none⟩
          rw [← new] at added
          exact added }
      other := { h.other with
        tasks := h.other.tasks.append_other (fun i eq => h.apart.task.apart v.tasks.length i (next.trans eq.symm)) _ }
      current := by simp [World.launch, next, Signal.via, given.via]
      idle := h.idle }

end Parted

/-! ### Alarms that ring -/

theorem ringTask_still (w : World) (t : TaskId) (c : Option (TaskId × List Frame × Signal)) :
    ({ w with current := c } : World).ringTask t = { w.ringTask t with current := c } := by
  have same : ({ w with current := c } : World).dueAlarm? t = w.dueAlarm? t := rfl
  unfold World.ringTask
  rw [same]
  cases w.dueAlarm? t with
  | none => rfl
  | some a =>
    simp only [World.ring]
    cases w.alarms.contains a <;> rfl

theorem current_ringTask (w : World) (t : TaskId) : (w.ringTask t).current = w.current := by
  have same := congrArg World.current (ringTask_still w t w.current)
  exact same.symm ▸ rfl

/-- The first alarm of a task that has one alone. -/
theorem ring_eq (lone : w.Lone) {a : Alarm} (set : a ∈ w.alarms) (due : a.due ≤ w.clock) :
    w.ring a = w.ringTask a.task := by
  have first : w.alarms.find? (·.task == a.task) = some a := by
    obtain ⟨a', found⟩ := Option.isSome_iff_exists.1
      ((List.find?_isSome (p := fun b : Alarm => b.task == a.task)).2 ⟨a, set, beq_self_eq_true a.task⟩)
    have one : a' = a :=
      List.inj_on_of_nodup_map lone (List.mem_of_find?_eq_some found) set (by simpa using List.find?_some found)
    exact one ▸ found
  simp [World.ringTask, World.dueAlarm?, first, Option.filter, due]

theorem ringAll_eq (as : List Alarm) (lone : w.Lone) (nodup : (as.map (·.task)).Nodup)
    (due : ∀ a ∈ as, a ∈ w.alarms ∧ a.due ≤ w.clock) :
    as.foldl World.ring w = w.run ((as.map (·.task)).map .ring) := by
  induction as generalizing w with
  | nil => rfl
  | cons a rest ih =>
    obtain ⟨set, past⟩ := due a List.mem_cons_self
    obtain ⟨apart, nodup⟩ := List.nodup_cons.1 nodup
    have woken : w.ring a = w.wake a.task (.value .unit) := if_pos (by simpa using set)
    have lone' : (w.ring a).Lone := woken ▸ lone.fewer (wake_fewer w _ _)
    rw [List.foldl_cons, ih lone' nodup fun a' mem => ?_, ring_eq lone set past]
    · rfl
    · obtain ⟨set', past'⟩ := due a' (List.mem_cons_of_mem _ mem)
      rw [woken]
      refine ⟨List.mem_filter.2 ⟨set', ?_⟩, past'⟩
      have other : a'.task ≠ a.task := fun same => apart (List.mem_map.2 ⟨a', mem, same⟩)
      simpa using other

/-- Time passes until the next alarm, and then all alarms that are due ring. -/
theorem jump_eq (lone : w.Lone) : w.jump = w.run (.pass (w.jump.clock - w.clock) :: w.dueTasks.map .ring) := by
  cases next : w.nextAlarm? with
  | none =>
    have none : w.alarms = [] := by simpa [nextAlarm?] using next
    have still : w.jump = w := by simp [World.jump, next]
    have nobody : w.dueTasks = [] := by simp [dueTasks, none]
    rw [nobody, still]
    show w = w.apply (.pass (w.clock - w.clock))
    simp only [World.apply, Nat.sub_self, Nat.add_zero]
  | some due =>
    have jumped : w.jump = (w.alarms.filter (·.due ≤ max w.clock due)).foldl World.ring { w with clock := max w.clock due } := by
      simp [World.jump, next]
    have clock : w.jump.clock = max w.clock due := by
      rw [jumped]
      have kept : ∀ (as : List Alarm) (x : World), (as.foldl World.ring x).clock = x.clock := by
        intro as
        induction as with
        | nil => exact fun _ => rfl
        | cons a rest ih =>
          intro x
          rw [List.foldl_cons, ih]
          unfold World.ring
          split <;> rfl
      exact kept _ _
    have passed : w.apply (.pass (w.jump.clock - w.clock)) = { w with clock := max w.clock due } := by
      rw [clock]
      have up : w.clock + (max w.clock due - w.clock) = max w.clock due := Nat.add_sub_cancel' (Nat.le_max_left _ _)
      simp only [World.apply, up]
    have late : ∀ a ∈ w.alarms.filter (·.due ≤ max w.clock due), a ∈ w.alarms ∧ a.due ≤ max w.clock due := fun a mem =>
      ⟨(List.mem_filter.1 mem).1, of_decide_eq_true (List.mem_filter.1 mem).2⟩
    have rung := ringAll_eq (w := { w with clock := max w.clock due }) _ lone (lone.sublist (List.filter_sublist.map _)) late
    refine (jumped.trans rung).trans ?_
    show _ = (w.apply (.pass (w.jump.clock - w.clock))).run (w.dueTasks.map .ring)
    rw [passed, dueTasks, clock]

/-! ### Shares of plain inputs -/

theorem isOwn_via {y : Subscriber} (h : y.IsOwn) (p : Nat → Nat) : (y.via p).IsOwn := by
  cases y with
  | script acts => exact fun n => h _
  | clients => exact h

/-- The share of an input is such an input. -/
theorem share_plain (w : World) (e : Inlay) (plain : i.IsPlain fun _ => True) :
    ∀ j ∈ w.share e i, j.IsPlain e.docs := by
  intro j mem
  cases i with
  | tick =>
    have tick : j = .tick := by
      simp only [share] at mem
      split at mem
      · exact List.mem_singleton.1 mem
      · cases mem
    exact tick ▸ trivial
  | jump =>
    simp only [share] at mem
    split at mem
    · rcases List.mem_cons.1 mem with rfl | mem
      · trivial
      · obtain ⟨m, -, rfl⟩ := List.mem_map.1 mem
        trivial
    · cases mem
  | ring t =>
    obtain ⟨m, -, rfl⟩ := List.mem_map.1 mem
    trivial
  | begin op =>
    simp only [share] at mem
    split at mem
    · rename_i mine
      obtain rfl := List.mem_singleton.1 mem
      have mine : op.Belongs e := truth_iff.1 (Bool.and_eq_true_iff.1 mine).2
      exact ⟨plain.1, mine.isOf plain.1 plain.2⟩
    · cases mem
  | queue op =>
    simp only [share] at mem
    split at mem
    · rename_i mine
      obtain rfl := List.mem_singleton.1 mem
      have mine : op.Belongs e := truth_iff.1 mine
      exact ⟨plain.1, mine.isOf plain.1 plain.2⟩
    · cases mem
  | cancel t =>
    simp only [share] at mem
    split at mem
    · obtain ⟨m, -, rfl⟩ := List.mem_map.1 mem
      trivial
    · cases mem
  | subscribe y =>
    obtain rfl := List.mem_singleton.1 mem
    exact isOwn_via plain _
  | pass | find | compiler | enableMetrics | setTime =>
    obtain rfl := List.mem_singleton.1 mem
    trivial
  | connect | welcome | arrive | breakLink => exact plain.elim

/-! ### Subscribers that come later -/

theorem Inlaid.subscribe (h : Inlaid e w v) (y : Subscriber) :
    Inlaid e (w.subscribe y) (v.subscribe (y.via (e.call w.subscribers.length))) := by
  have same : v.subscribers.length = w.subscribers.length := h.hearers
  have uncalled : ∀ (x : World) (y : Subscriber) i, (x.subscribe y).timesCalled i = x.timesCalled i := by
    intro x y i
    unfold World.timesCalled World.subscribe
    dsimp only
    rcases Nat.lt_trichotomy i x.calls.length with less | rfl | more
    · rw [List.getElem?_append_left less]
    · simp
    · rw [List.getElem?_eq_none (Nat.le_of_lt more), List.getElem?_eq_none (by simp; omega)]
  exact
    { h with
      subscribers := by
        intro i
        unfold World.subscribe
        dsimp only
        rcases Nat.lt_trichotomy i w.subscribers.length with less | rfl | more
        · rw [List.getElem?_append_left less, List.getElem?_append_left (same ▸ less), h.subscribers]
        · simp [← same]
        · rw [List.getElem?_eq_none (by simp; omega), List.getElem?_eq_none (by simp; omega)]
          rfl
      called := by simp [World.subscribe, h.called]
      calls := by
        intro i n
        rw [uncalled, uncalled]
        exact h.calls i n }

namespace Joint

theorem symm (h : Joint e f w v u) : Joint f e w u v := ⟨h.apart.symm, h.other, h.mine, h.current.symm⟩

theorem parted (h : Joint e f w v u) (idle : u.current = none) : Parted e f w v u := by
  refine ⟨h.apart, h.mine, h.other, ?_, idle⟩
  rcases h.current with ⟨-, current⟩ | ⟨idle', current⟩
  · exact current
  · rw [current, idle, idle']
    rfl

/-- Whatever leaves the running task alone may be seen as if none ran. -/
theorem still (h : Joint e f w v u) :
    Parted e f { w with current := none } { v with current := none } { u with current := none } :=
  ⟨h.apart, { h.mine with }, { h.other with }, rfl, rfl⟩

theorem restore (h : Joint e f w v u) (w' v' : World)
    (parted : Parted e f { w' with current := none } { v' with current := none } { u with current := none })
    (same : w'.current = w.current) (same' : v'.current = v.current) : Joint e f w' v' u :=
  ⟨h.apart, { parted.mine with }, { parted.other with }, by rw [same, same']; exact h.current⟩

/-! ### Alarms and time -/

theorem ring_mine (h : Joint e f w v u) (t : TaskId) : Joint e f (w.ringTask (e.task t)) (v.ringTask t) u := by
  have rung := h.still.ringTask t
  rw [ringTask_still w _ none, ringTask_still v t none] at rung
  exact h.restore _ _ rung (current_ringTask w _) (current_ringTask v t)

theorem share_ring_mine (h : Joint e f w v u) (t : TaskId) :
    w.share e (.ring (e.task t)) = [.ring t] ∧ w.share f (.ring (e.task t)) = [] := by
  simp [share, pre_self h.apart.task.left.injective, pre_other fun i => (h.apart.task.apart t i).symm]

theorem ring (h : Joint e f w v u) (t : TaskId) :
    Joint e f (w.ringTask t) (v.run (w.share e (.ring t))) (u.run (w.share f (.ring t))) := by
  rcases h.apart.task.cover t with ⟨i, rfl⟩ | ⟨j, rfl⟩
  · obtain ⟨here, there⟩ := h.share_ring_mine i
    rw [here, there]
    exact h.ring_mine i
  · obtain ⟨here, there⟩ := h.symm.share_ring_mine j
    rw [here, there]
    exact (h.symm.ring_mine j).symm

theorem pass (h : Joint e f w v u) (n : Nat) : Joint e f (w.apply (.pass n)) (v.apply (.pass n)) (u.apply (.pass n)) :=
  ⟨h.apart, { h.mine with clock := congrArg (· + n) h.mine.clock },
    { h.other with clock := congrArg (· + n) h.other.clock }, h.current⟩

theorem nobody (h : Joint e f w v u) (idle : w.current = none) : v.current = none ∧ u.current = none := by
  rcases h.current with ⟨still, same⟩ | ⟨still, same⟩
  · exact ⟨Option.map_eq_none_iff.1 (same.symm.trans idle), still⟩
  · exact ⟨still, Option.map_eq_none_iff.1 (same.symm.trans idle)⟩

/-! ### The running task -/

/-- A step of a task of the part. -/
theorem tick_running (h : Joint e f w v u) (distinct : Distinct w.seats) (mine : Minded e.docs v)
    (idle : u.current = none)
    (running : v.current = some (t, fs, x)) (room : e.Room w.extent w.tick.extent) :
    w.isTurnOf e = true ∧ w.isTurnOf f = false ∧ Joint e f w.tick v.tick u := by
  have parted := h.parted idle
  have now : w.current = some (e.task t, fs.map (·.via e), x.via e) := by rw [parted.current, running]; rfl
  obtain ⟨frames, begins⟩ := mine.minds.running t fs x running
  have step := World.tick_running now
  have step' := World.tick_running running
  rw [step] at room
  have moved := parted.move distinct mine.own frames begins room
  rw [← step, ← step'] at moved
  exact ⟨by simp [isTurnOf, now], by simp [isTurnOf, now, h.apart.task.among_other], moved.joint⟩

/-- A job of the part. -/
theorem tick_job (h : Joint e f w v u) (idle : w.current = none) {j : Job} {rest : List Job}
    (queue : w.queue = j :: rest) (of : j.isOf e = true) :
    w.isTurnOf e = true ∧ w.isTurnOf f = false ∧ Joint e f w.tick v.tick u := by
  have parted := h.parted (h.nobody idle).2
  have shown := h.mine.queue
  rw [queue, List.filter_cons_of_pos of] at shown
  obtain ⟨j', rest', queue', rfl, later⟩ := List.map_eq_cons_iff.1 shown.symm
  have other := h.apart.isOf_other j'
  have taken : Parted e f { w with queue := rest } { v with queue := rest' } u :=
    { parted with
      mine := { h.mine with queue := later.symm }
      other := { h.other with
        queue := by
          have theirs := h.other.queue
          rwa [queue, List.filter_cons_of_neg (by simp [other])] at theirs } }
  have done := taken.perform j'
  rw [World.tick_job idle queue, World.tick_job (h.nobody idle).1 queue']
  exact ⟨by simp [isTurnOf, idle, queue], by simp [isTurnOf, idle, queue, other], done.joint⟩

/-! ### What comes from outside -/

theorem launch (h : Joint e f w v u) (idle : w.current = none) {op : Op} (given : op.IsPublic)
    (here : ∃ i, e.task i = w.tasks.length) : Joint e f (w.launch op).2 (v.launch op).2 u := by
  exact ((h.parted (h.nobody idle).2).launch given here).joint

theorem queue (h : Joint e f w v u) {op : Op} (given : op.IsPublic)
    (here : ∃ i, e.task i = w.tasks.length) : Joint e f (w.spawn op fun _ => []).2 (v.spawn op fun _ => []).2 u := by
  obtain ⟨-, spawned⟩ := h.still.spawn (given.via e).symm here (fun _ => []) (fun _ => []) fun _ => rfl
  exact h.restore (w.spawn op fun _ => []).2 (v.spawn op fun _ => []).2 spawned rfl rfl

theorem cancel (h : Joint e f w v u) (idle : w.current = none) (t : TaskId) :
    Joint e f (w.cancel (e.task t)) (v.cancel t) u := by
  exact ((h.parted (h.nobody idle).2).cancel t).joint

theorem subscribe (h : Joint e f w v u) (y : Subscriber) :
    Joint e f (w.subscribe y) (v.subscribe (y.via (e.call w.subscribers.length)))
      (u.subscribe (y.via (f.call w.subscribers.length))) :=
  ⟨h.apart, Inlaid.subscribe h.mine y, Inlaid.subscribe h.other y, h.current⟩

/-! ### All together -/

theorem ringAll (h : Joint e f w v u) (ts : List TaskId) :
    Joint e f (w.run (ts.map .ring)) (v.run ((ts.filterMap (pre e.task)).map .ring))
      (u.run ((ts.filterMap (pre f.task)).map .ring)) := by
  induction ts generalizing w v u with
  | nil => exact h
  | cons t rest ih =>
    have more : ∀ (p : Nat → Nat), ((t :: rest).filterMap (pre p)).map Input.ring =
        (pre p t).toList.map .ring ++ (rest.filterMap (pre p)).map .ring := by
      intro p
      rw [List.filterMap_cons]
      cases pre p t <;> rfl
    rw [more, more, run_append, run_append]
    exact ih (h.ring t)

/-- A step of the whole is a step of the part it belongs to, and the other part stands still. -/
theorem tick (h : Joint e f w v u) (distinct : Distinct w.seats) (mine : Minded e.docs v) (theirs : Minded f.docs u)
    (room : w.Acts e .tick → e.Room w.extent w.tick.extent) (room' : w.Acts f .tick → f.Room w.extent w.tick.extent) :
    Joint e f w.tick (v.run (w.share e .tick)) (u.run (w.share f .tick)) := by
  rcases current : w.current with _ | ⟨t, fs, x⟩
  · rcases queue : w.queue with _ | ⟨j, rest⟩
    · have still : w.tick = w := tick_idle current queue
      have nobody : ∀ e, w.share e .tick = [] := fun e => by simp [share, isTurnOf, current, queue]
      rw [nobody, nobody]
      show Joint e f w.tick v u
      rwa [still]
    · rcases h.apart.job j with of | of
      · obtain ⟨here, there, joint⟩ := h.tick_job current queue of
        simp only [share, here, there, if_true]
        exact joint
      · obtain ⟨here, there, joint⟩ := h.symm.tick_job current queue of
        simp only [share, here, there, if_true]
        exact joint.symm
  · rcases h.current with ⟨idle, now⟩ | ⟨idle, now⟩
    · rw [current] at now
      obtain ⟨⟨t', fs', x'⟩, running, same⟩ := Option.map_eq_some_iff.1 now.symm
      obtain rfl : e.task t' = t := congrArg Prod.fst same
      obtain ⟨here, there, joint⟩ := h.tick_running distinct mine idle running (room ⟨t', fs, x, current⟩)
      simp only [share, here, there, if_true]
      exact joint
    · rw [current] at now
      obtain ⟨⟨t', fs', x'⟩, running, same⟩ := Option.map_eq_some_iff.1 now.symm
      obtain rfl : f.task t' = t := congrArg Prod.fst same
      obtain ⟨here, there, joint⟩ := h.symm.tick_running distinct theirs idle running (room' ⟨t', fs, x, current⟩)
      simp only [share, here, there, if_true]
      exact joint.symm

/-- The clock of the whole passes for both parts, and each rings the alarms that are its own. -/
theorem jump (h : Joint e f w v u) (lone : w.Lone) :
    Joint e f (w.apply .jump) (v.run (w.share e .jump)) (u.run (w.share f .jump)) := by
  simp only [share, World.apply]
  split
  · have passed := h.pass (w.jump.clock - w.clock)
    have rung := passed.ringAll w.dueTasks
    have same : (w.apply (.pass (w.jump.clock - w.clock))).run (w.dueTasks.map .ring) = w.jump := (jump_eq lone).symm
    rw [same] at rung
    exact rung
  · exact h

theorem begins (h : Joint e f w v u) {op : Op} (given : op.IsPublic)
    (room : op.Belongs e → e.Room w.extent (w.apply (.begin op)).extent)
    (room' : op.Belongs f → f.Room w.extent (w.apply (.begin op)).extent) :
    Joint e f (w.apply (.begin op)) (v.run (w.share e (.begin op))) (u.run (w.share f (.begin op))) := by
  cases current : w.current with
  | some p =>
    have still : w.apply (.begin op) = w := by simp [World.apply, current]
    have nobody : ∀ e, w.share e (.begin op) = [] := fun e => by simp [share, current]
    rw [nobody, nobody, still]
    exact h
  | none =>
    obtain ⟨idle, idle'⟩ := h.nobody current
    have begun : ∀ {x : World}, x.current = none → x.apply (.begin op) = (x.launch op).2 := fun idle => by
      simp [World.apply, idle]
    have more : (w.apply (.begin op)).extent.tasks ≠ w.extent.tasks := by
      rw [begun current]
      simp [extent, World.launch]
    have mine' : ∀ {e : Inlay}, op.Belongs e → w.share e (.begin op) = [.begin op] := fun of => by
      simp [share, current, truth_iff.2 of]
    have not' : ∀ {e : Inlay}, ¬ op.Belongs e → w.share e (.begin op) = [] := fun other => by
      simp [share, truth, other]
    rcases h.apart.side op with ⟨of, other⟩ | ⟨other, of⟩
    · have joint := h.launch current given ((room of).task more)
      rw [← begun current, ← begun idle] at joint
      rw [mine' of, not' other]
      exact joint
    · have joint := h.symm.launch current given ((room' of).task more)
      rw [← begun current, ← begun idle'] at joint
      rw [mine' of, not' other]
      exact joint.symm

theorem queues (h : Joint e f w v u) {op : Op} (given : op.IsPublic)
    (room : op.Belongs e → e.Room w.extent (w.apply (.queue op)).extent)
    (room' : op.Belongs f → f.Room w.extent (w.apply (.queue op)).extent) :
    Joint e f (w.apply (.queue op)) (v.run (w.share e (.queue op))) (u.run (w.share f (.queue op))) := by
  have more : (w.apply (.queue op)).extent.tasks ≠ w.extent.tasks := by
    rw [World.apply, extent_spawn]
    exact Nat.succ_ne_self _
  have mine' : ∀ {e : Inlay}, op.Belongs e → w.share e (.queue op) = [.queue op] := fun of => by
    simp [share, truth_iff.2 of]
  have not' : ∀ {e : Inlay}, ¬ op.Belongs e → w.share e (.queue op) = [] := fun other => by
    simp [share, truth, other]
  rcases h.apart.side op with ⟨of, other⟩ | ⟨other, of⟩
  · rw [mine' of, not' other]
    exact h.queue given ((room of).task more)
  · rw [mine' of, not' other]
    exact (h.symm.queue given ((room' of).task more)).symm

theorem cancels (h : Joint e f w v u) (t : TaskId) :
    Joint e f (w.apply (.cancel t)) (v.run (w.share e (.cancel t))) (u.run (w.share f (.cancel t))) := by
  cases current : w.current with
  | some p =>
    have still : w.apply (.cancel t) = w := by simp [World.apply, current]
    have nobody : ∀ e, w.share e (.cancel t) = [] := fun e => by simp [share, current]
    rw [nobody, nobody, still]
    exact h
  | none =>
    obtain ⟨idle, idle'⟩ := h.nobody current
    have struck : ∀ {x : World} (m : TaskId), x.current = none → x.apply (.cancel m) = x.cancel m := fun m idle => by
      simp [World.apply, idle]
    have mine' : ∀ {e : Inlay} (m : TaskId), StrictMono e.task → w.share e (.cancel (e.task m)) = [.cancel m] :=
      fun m grows => by simp [share, current, pre_self grows.injective]
    have not' : ∀ {e : Inlay} {n : TaskId}, (∀ m, e.task m ≠ n) → w.share e (.cancel n) = [] := fun other => by
      simp [share, current, pre_other other]
    rcases h.apart.task.cover t with ⟨m, rfl⟩ | ⟨m, rfl⟩
    · have joint := h.cancel current m
      rw [← struck _ current, ← struck m idle] at joint
      rw [mine' m h.apart.task.left, not' fun j => (h.apart.task.apart m j).symm]
      exact joint
    · have joint := h.symm.cancel current m
      rw [← struck _ current, ← struck m idle'] at joint
      rw [mine' m h.apart.task.right, not' fun j => h.apart.task.apart j m]
      exact joint.symm

/-- Whatever happens to the whole happens, as far as it is theirs, to the parts. -/
theorem apply (h : Joint e f w v u) (distinct : Distinct w.seats) (lone : w.Lone) (mine : Minded e.docs v)
    (theirs : Minded f.docs u) (plain : i.IsPlain fun _ => True)
    (room : w.Acts e i → e.Room w.extent (w.apply i).extent)
    (room' : w.Acts f i → f.Room w.extent (w.apply i).extent) :
    Joint e f (w.apply i) (v.run (w.share e i)) (u.run (w.share f i)) := by
  cases i with
  | tick => exact h.tick distinct mine theirs room room'
  | jump => exact h.jump lone
  | pass n => exact h.pass n
  | ring t => exact h.ring t
  | begin op => exact h.begins plain.1 room room'
  | queue op => exact h.queues plain.1 room room'
  | cancel t => exact h.cancels t
  | subscribe y => exact h.subscribe y
  | find => exact ⟨h.apart, { h.mine with finder := rfl }, { h.other with finder := rfl }, h.current⟩
  | compiler child =>
    have again : ∀ {x : World}, x.setup = w.setup →
        ({ x.setup with child := child } : Setup) = { w.setup with child := child } := fun same => by rw [same]
    exact ⟨h.apart, { h.mine with setup := again h.mine.setup },
      { h.other with setup := again h.other.setup }, h.current⟩
  | enableMetrics | setTime => exact ⟨h.apart, { h.mine with }, { h.other with }, h.current⟩
  | connect | welcome | arrive | breakLink => exact plain.elim

end Joint
end
end World
end InkPreview.Live
