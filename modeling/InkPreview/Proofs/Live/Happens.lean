import InkPreview.Proofs.Live.Strides
/-!
What can happen, input by input. Apart from the step of the running task, an input gives a task its
turn, begins an operation, has a slot forget a task, adds a subscriber, or only stirs what waits.
Main statements: `apply_happens`, and `Reaches.grown` for what a step does to the list of tasks.
-/
namespace InkPreview.Live

/-! ### Growth -/

/-- Every task is an old one with its frames as they were, perhaps told that its operation has ended,
or a new one that is about to begin. -/
structure Grown (licit : Op → Prop) (xs ys : List Task) : Prop where
  length : xs.length ≤ ys.length
  task : ∀ (u : TaskId) k', ys[u]? = some k' →
    (∃ k, xs[u]? = some k ∧ k'.frames = k.frames ∧ (k'.signal = k.signal ∨ k'.signal.IsCalm)) ∨
      xs.length ≤ u ∧ k'.frames = [] ∧ (k'.signal.IsCalm ∨ ∃ op, k'.signal = .start op ∧ licit op)

namespace Grown
variable {licit : Op → Prop} {xs ys zs : List Task}

theorem refl (xs : List Task) : Grown licit xs xs :=
  ⟨Nat.le_refl _, fun _ k found => .inl ⟨k, found, rfl, .inl rfl⟩⟩

theorem of_eq (h : ys = xs) : Grown licit xs ys := by
  rw [h]
  exact refl xs

theorem trans (h : Grown licit xs ys) (h' : Grown licit ys zs) : Grown licit xs zs := by
  refine ⟨Nat.le_trans h.length h'.length, fun u k'' found => ?_⟩
  rcases h'.task u k'' found with ⟨k', found', frames, signal⟩ | ⟨new, rest⟩
  · rcases h.task u k' found' with ⟨k, found, frames', signal'⟩ | ⟨new, frames', signal'⟩
    · refine .inl ⟨k, found, frames.trans frames', ?_⟩
      rcases signal with same | ends
      · exact same ▸ signal'
      · exact .inr ends
    · refine .inr ⟨new, frames.trans frames', ?_⟩
      rcases signal with same | ends
      · exact same ▸ signal'
      · exact .inl ends
  · exact .inr ⟨Nat.le_trans h.length new, rest⟩

theorem modify (xs : List Task) (u : TaskId) {f : Task → Task} (frames : ∀ k, (f k).frames = k.frames)
    (signal : ∀ k, (f k).signal = k.signal ∨ (f k).signal.IsCalm) : Grown licit xs (xs.modify u f) := by
  refine ⟨by simp, fun i k' found => .inl ?_⟩
  simp only [List.getElem?_modify, Option.map_eq_map, Option.map_eq_some_iff] at found
  obtain ⟨k, found, rfl⟩ := found
  refine ⟨k, found, ?_⟩
  split
  · exact ⟨frames k, signal k⟩
  · exact ⟨rfl, .inl rfl⟩

theorem append (xs : List Task) {k : Task} {op : Op} (frames : k.frames = []) (signal : k.signal = .start op)
    (h : licit op) : Grown licit xs (xs ++ [k]) := by
  refine ⟨by simp, fun u k' found => ?_⟩
  rcases World.getElem?_concat_iff.1 found with old | ⟨rfl, rfl⟩
  · exact .inl ⟨k', old, rfl, .inl rfl⟩
  · exact .inr ⟨Nat.le_refl _, frames, .inr ⟨op, signal, h⟩⟩

/-- An old task keeps its place and its frames. -/
theorem old (h : Grown licit xs ys) {u : TaskId} {k : Task} (found : xs[u]? = some k) :
    ∃ k', ys[u]? = some k' ∧ k'.frames = k.frames ∧ (k'.signal = k.signal ∨ k'.signal.IsCalm) := by
  have lt := (List.getElem?_eq_some_iff.1 found).1
  have lt' := Nat.lt_of_lt_of_le lt h.length
  rcases h.task u _ (List.getElem?_eq_getElem lt') with ⟨k', found', frames, signal⟩ | ⟨new, -⟩
  · obtain rfl := Option.some.inj (found.symm.trans found')
    exact ⟨_, List.getElem?_eq_getElem lt', frames, signal⟩
  · exact absurd lt (Nat.not_lt.2 new)

end Grown

/-- What an input lets queue up. -/
def Input.Queues : Input → Op → Prop
  | .queue op, op' => op' = op
  | .welcome c _, op' => op' = .converse c
  | _, _ => False

theorem Input.IsPublic.queues {i : Input} {op : Op} (h : i.IsPublic) (asked : i.Queues op) : op.IsPublic := by
  cases i with
  | queue =>
    cases asked
    exact h
  | welcome c =>
    cases asked
    exact .converse c
  | _ => exact asked.elim

/-- The tasks once the task `t` has landed: it keeps its new frames, unless it goes on at once. -/
def Landing.put (t : TaskId) (ks : List Task) : Landing → List Task
  | .go _ _ => ks
  | l => ks.modify t fun k => { k with frames := l.frames }

theorem Landing.put_length (t : TaskId) (ks : List Task) (l : Landing) : (l.put t ks).length = ks.length := by
  cases l with
  | go => rfl
  | park | turn | timed | finish => exact List.length_modify _ _ _

def Landing.now (t : TaskId) : Landing → Option (TaskId × List Frame × Signal)
  | .go fs s => some (t, fs, s)
  | _ => none

/-- What a task is once it has got its turn. -/
def Task.resumed (k : Task) : Task := { k with wait := .running, mustCancel := false }

namespace World

section
variable {now w v : World} {licit : Op → Prop}

theorem Nudges.grown {H : TaskId → Prop} (h : Nudges H w v) : Grown licit w.tasks v.tasks := by
  refine h.keep (P := fun x => Grown licit w.tasks x.tasks) (fun x y grown step => grown.trans ?_) (.refl _)
  refine ⟨Nat.le_of_eq step.length.symm, fun u k' found => .inl ?_⟩
  obtain ⟨k, found, frames, signal⟩ := step.task found
  refine ⟨k, found, frames, ?_⟩
  rcases signal with same | ends | ends
  · exact .inl same
  · exact .inr (ends ▸ trivial)
  · exact .inr (ends ▸ trivial)

theorem stopped_grown (w : World) (t f : TaskId) : Grown licit w.tasks (w.stopped t f).tasks := by
  have freed : Grown licit w.tasks (w.modifyTask f fun k => { k with watchers := [.report t f] }).tasks :=
    .modify _ f (fun _ => rfl) fun _ => .inl rfl
  exact freed.trans (cancel_nudges _ f).grown

theorem Aside.current {t : TaskId} (h : Aside t w v) : v.current = w.current := by
  cases h with
  | alike h => exact h.current
  | stop | forestall => exact (cancel_nudges _ _).current
  | @enroll members _ =>
    obtain ⟨ks, js, eq, -⟩ := enroll_eq w t members
    rw [eq]
  | files | call | process | launch | spawn | follow => rfl

theorem Deed.current (h : now.Deed w v) : v.current = w.current := by
  cases h with
  | aside h => exact h.current
  | slots | gauge | render | discard | call | hire => rfl
  | cancel _ => exact (cancel_nudges _ _).current

theorem Deeds.current (h : now.Deeds w v) : v.current = w.current := by
  induction h with
  | refl => rfl
  | tail _ step ih => exact step.current.trans ih

/-- What the tasks of a step that are new may be about to do: one of several operations side by side, the
following of a process, or the work behind an edit. -/
inductive Begins (now : World) : Op → Prop
  | together {t : TaskId} {fs : List Frame} {ops : List Op} {op : Op}
      (running : now.current = some (t, fs, .start (.together ops))) (mem : op ∈ ops)
      (given : op.IsPublic) : Begins now op
  | follow (p : ProcessId) : Begins now (.follow p)
  | background {r : Request} (hires : now.Hires r) : Begins now (.background r)

theorem Aside.grown {t : TaskId} (h : Aside t w v) (same : w.current = now.current) :
    Grown now.Begins w.tasks v.tasks := by
  cases h with
  | alike h => exact .of_eq h.tasks
  | files | call | process | launch => exact .refl _
  | @enroll members _ =>
    obtain ⟨ks, js, eq, length, task⟩ := enroll_eq w t members
    rw [eq]
    refine ⟨Nat.le_of_eq length.symm, fun u k' found => .inl ?_⟩
    obtain ⟨k, more, old, rfl⟩ := task u k' found
    exact ⟨k, old, rfl, .inl rfl⟩
  | spawn running mem given => exact .append _ rfl rfl (.together (same ▸ running) mem given)
  | follow p => exact .append _ rfl rfl (.follow p)
  | stop f => exact stopped_grown w t f
  | forestall p =>
    have begun : Grown now.Begins w.tasks (w.spawn (.follow p) fun f => [.report t f]).2.tasks :=
      .append _ rfl rfl (.follow p)
    exact begun.trans (stopped_grown _ t _)

theorem Deeds.grown (h : now.Deeds now v) : Grown now.Begins now.tasks v.tasks := by
  induction h with
  | refl => exact .refl _
  | tail steps step ih =>
    refine ih.trans ?_
    cases step with
    | aside h => exact h.grown (Deeds.current steps)
    | slots | gauge | render | discard => exact .refl _
    | call _ => exact .modify _ _ (fun _ => rfl) fun _ => .inr trivial
    | hire hires => exact .append _ rfl rfl (.background hires)
    | cancel _ => exact (cancel_nudges _ _).grown

theorem land_current (w : World) (t : TaskId) (l : Landing) : (w.land t l).current = l.now t := by
  cases l with
  | go fs s => rfl
  | park fs wait => exact current_park w t fs wait
  | turn fs => exact current_park w t fs .turn
  | timed fs wait n => exact current_park _ t fs wait
  | finish r =>
    obtain ⟨f, -, eq⟩ := finish_eq w t r
    rw [land, eq]
    rfl

theorem subscribers_land (w : World) (t : TaskId) (l : Landing) : (w.land t l).subscribers = w.subscribers :=
  land_same Nudges.subscribers (fun _ _ _ _ _ => rfl) w t l

theorem park_grown (w : World) (t : TaskId) (fs : List Frame) (wait : Wait) :
    Grown licit (w.tasks.modify t fun k => { k with frames := fs }) (w.park t fs wait).tasks := by
  have yielded : Grown licit (w.tasks.modify t fun k => { k with frames := fs }) (w.yield t fs wait).tasks := by
    have both : (w.yield t fs wait).tasks = (w.tasks.modify t fun k => { k with frames := fs }).modify t
        fun k => { k with wait, signal := .value .unit } := by
      rw [List.modify_modify_eq]
      rfl
    rw [both]
    exact .modify _ t (fun _ => rfl) fun _ => .inr trivial
  rcases park_nudged w t fs wait with eq | nudges
  · exact eq ▸ yielded
  · have cleared : Grown licit (w.yield t fs wait).tasks ((w.yield t fs wait).clearCancel t).tasks :=
      .modify _ t (fun _ => rfl) fun _ => .inl rfl
    exact (yielded.trans cleared).trans nudges.grown

variable (licit) in
theorem land_grown (w : World) (t : TaskId) (l : Landing) :
    Grown licit (l.put t w.tasks) (w.land t l).tasks := by
  cases l with
  | go fs s => exact .refl _
  | park fs wait => exact park_grown w t fs wait
  | turn fs => exact park_grown w t fs .turn
  | timed fs wait n => exact park_grown (w.setAlarm t n) t fs wait
  | finish r =>
    obtain ⟨f, ends, eq⟩ := finish_eq w t r
    have tasks : (w.land t (.finish r)).tasks = w.tasks.modify t f := congrArg World.tasks eq
    rw [tasks]
    refine ⟨by simp [Landing.put], fun u k' found => .inl ?_⟩
    simp only [List.getElem?_modify, Option.map_eq_map, Option.map_eq_some_iff] at found
    obtain ⟨k, found, rfl⟩ := found
    refine ⟨if t = u then { k with frames := [] } else k, 
      by simp [Landing.put, Landing.frames, List.getElem?_modify, found], ?_⟩
    split
    · exact ⟨(ends k).1, .inl (ends k).2.1⟩
    · exact ⟨rfl, .inl rfl⟩

/-! ### Stacks -/

/-- All frames of the tasks have the one property, and what moves them has the other. -/
def Stacked (F : Frame → Prop) (S : Signal → Prop) (ks : List Task) : Prop :=
  ∀ k ∈ ks, (∀ f ∈ k.frames, F f) ∧ S k.signal

section
variable {F : Frame → Prop} {S : Signal → Prop} {xs ys : List Task} (calm : ∀ s : Signal, s.IsCalm → S s)
include calm

theorem stacked_grown (h : Grown licit xs ys) (all : Stacked F S xs) (starts : ∀ op, licit op → S (.start op)) :
    Stacked F S ys := by
  intro k' mem
  obtain ⟨u, found⟩ := List.mem_iff_getElem?.1 mem
  rcases h.task u k' found with ⟨k, found, frames, signal⟩ | ⟨-, frames, signal⟩
  · obtain ⟨old, old'⟩ := all k (List.mem_of_getElem? found)
    refine ⟨frames ▸ old, ?_⟩
    rcases signal with same | ends
    · exact same ▸ old'
    · exact calm _ ends
  · refine ⟨frames ▸ nofun, ?_⟩
    rcases signal with ends | ⟨op, same, given⟩
    · exact calm _ ends
    · exact same ▸ starts op given

theorem land_stacked (w : World) (t : TaskId) {l : Landing} (all : Stacked F S w.tasks) (frames : ∀ f ∈ l.frames, F f) :
    Stacked F S (w.land t l).tasks := by
  have put : Stacked F S (l.put t w.tasks) := by
    have kept : Stacked F S (w.tasks.modify t fun k => { k with frames := l.frames }) := by
      intro k mem
      obtain ⟨u, found⟩ := List.mem_iff_getElem?.1 mem
      simp only [List.getElem?_modify, Option.map_eq_map, Option.map_eq_some_iff] at found
      obtain ⟨k, found, rfl⟩ := found
      have old := all k (List.mem_of_getElem? found)
      split
      · exact ⟨frames, old.2⟩
      · exact old
    cases l with
    | go => exact all
    | park | turn | timed | finish => exact kept
  exact stacked_grown calm (land_grown (fun _ => False) w t l) put fun _ => False.elim

end

/-! ### Turns -/

/-- A task that gets its turn goes on where it was, unless it is cancelled. -/
theorem resume_cases (w : World) (t : TaskId) : w.resume t = w ∨ ∃ k, w.tasks[t]? = some k ∧ k.wait = .turn ∧
    w.resume t = (w.modifyTask t Task.resumed).go t k.frames (if k.mustCancel then .cancelled else k.signal) := by
  unfold World.resume
  split
  · rename_i k found
    split
    · rename_i turn
      exact .inr ⟨k, found, turn, rfl⟩
    · exact .inl rfl
  · exact .inl rfl

/-- Nothing changes when a task gets its turn but the tasks and who runs. -/
theorem resume_eq (w : World) (t : TaskId) :
    ∃ tasks current, w.resume t = { w with tasks, current } := by
  rcases w.resume_cases t with same | ⟨k, -, -, eq⟩
  · exact ⟨w.tasks, w.current, same⟩
  · exact ⟨_, _, eq⟩

/-! ### Inputs -/

/-- What the input `i` stirs: tasks that wait, or whatever else it lets be known. -/
inductive Stir (i : Input) : World → World → Prop
  | alike {w v : World} (h : w.Alike v) : Stir i w v
  | later (w : World) {clock : Nat} (h : w.clock ≤ clock) : Stir i w { w with clock }
  | child (w : World) (child : String → Child) : Stir i w { w with setup := { w.setup with child } }
  | enables (w : World) {enabled : Bool} (h : i = .enableMetrics enabled) :
      Stir i w { w with metrics := { w.metrics with enabled } }
  | dates (w : World) {now : Int} (h : i = .setTime now) : Stir i w { w with library := { w.library with now } }
  | taken {w : World} {j : Job} {rest : List Job} (h : w.queue = j :: rest) : Stir i w { w with queue := rest }
  | counts {w : World} {g : GroupId} {rest : List Job} (h : w.queue = .joined g :: rest) :
      Stir i w (({ w with queue := rest } : World).counted g)
  | nudge {w v : World} (h : Nudge (fun _ => False) w v) : Stir i w v
  | cancel (w : World) {u : TaskId} (h : i = .cancel u) : Stir i w (w.cancel u)
  | spawn (w : World) {op : Op} (h : i.Queues op) : Stir i w (w.spawn op fun _ => []).2

def Stirs (i : Input) : World → World → Prop := Relation.ReflTransGen (Stir i)

/-- What an input comes to. -/
inductive Happens (w : World) : Input → World → Prop
  | moves {t : TaskId} {fs : List Frame} {s : Signal} (running : w.current = some (t, fs, s)) :
      Happens w .tick (w.move t fs s)
  | resumes {t : TaskId} {rest : List Job} (idle : w.current = none)
      (queue : w.queue = .resume t :: rest) : Happens w .tick (({ w with queue := rest } : World).resume t)
  | forgets {s : SlotId} {u : TaskId} {rest : List Job} (idle : w.current = none)
      (queue : w.queue = .forget s u :: rest) :
      Happens w .tick (({ w with queue := rest } : World).modifySlot s fun k =>
        { k with tasks := k.tasks.filter (· != u) })
  | launches {op : Op} (idle : w.current = none) : Happens w (.begin op) (w.launch op).2
  | subscribes {s : Subscriber} : Happens w (.subscribe s) (w.subscribe s)
  | stirs {i : Input} {v : World} (h : Stirs i w v)
      (still : i = .tick → w.current = none) : Happens w i v

section
variable {i : Input}

namespace Stirs

theorem one (h : Stir i w v) : Stirs i w v := Relation.ReflTransGen.single h

theorem trans {x : World} (h : Stirs i w v) (h' : Stirs i v x) : Stirs i w x :=
  Relation.ReflTransGen.trans h h'

theorem alike (h : w.Alike v) : Stirs i w v := one (.alike h)

theorem nudges (h : Nudges (fun _ => False) w v) : Stirs i w v := by
  induction h with
  | refl => exact .refl
  | tail _ step ih => exact ih.trans (one (.nudge step))

end Stirs

theorem tick_happens (w : World) : w.Happens .tick w.tick := by
  cases running : w.current with
  | some p =>
    obtain ⟨t, fs, s⟩ := p
    rw [tick_running running]
    exact .moves running
  | none =>
    cases queue : w.queue with
    | nil =>
      rw [tick_idle running queue]
      exact .stirs .refl fun _ => running
    | cons j rest =>
      rw [tick_job running queue]
      have taken : Stirs .tick w { w with queue := rest } := .one (.taken queue)
      cases j with
      | resume t => exact .resumes running queue
      | forget s u => exact .forgets running queue
      | joined g =>
        exact .stirs ((Stirs.one (.counts queue)).trans (.nudges (join_nudges _ g))) fun _ => running
      | report t f => exact .stirs (taken.trans (.nudges (learn_nudges _ t f))) fun _ => running

theorem apply_happens (w : World) (i : Input) : w.Happens i (w.apply i) := by
  have nothing : ∀ {i : Input}, i ≠ .tick → w.Happens i w := fun other => .stirs .refl fun eq => absurd eq other
  cases i with
  | tick => exact tick_happens w
  | jump =>
    simp only [World.apply]
    split
    · obtain ⟨now, le, nudges⟩ := jump_nudges (H := fun _ => False) w
      exact .stirs ((Stirs.one (.later w le)).trans (.nudges nudges)) nofun
    · exact nothing nofun
  | pass n => exact .stirs (.one (.later w (Nat.le_add_right _ _))) nofun
  | ring t => exact .stirs (.nudges (ringTask_nudges w t)) nofun
  | begin op =>
    simp only [World.apply]
    split
    · rename_i idle
      exact .launches (Option.isNone_iff_eq_none.1 idle)
    · exact nothing nofun
  | queue op => exact .stirs (.one (.spawn w rfl)) nofun
  | cancel t =>
    simp only [World.apply]
    split
    · exact .stirs (.one (.cancel w rfl)) nofun
    · exact nothing nofun
  | subscribe s => exact .subscribes
  | find f => exact .stirs (.alike (.finder w f)) nofun
  | compiler child => exact .stirs (.one (.child w child)) nofun
  | connect pace =>
    refine .stirs (.alike (.connections w fun c k found => ⟨k, ?_, id⟩)) nofun
    exact (List.getElem?_append_left (List.getElem?_eq_some_iff.1 found).1).trans found
  | welcome c path =>
    simp only [World.apply, welcome]
    split
    · exact .stirs (.one (.spawn w rfl)) nofun
    · exact .stirs (.alike (.trans (.setLink w c (.inl rfl)) (.emit _ _))) nofun
  | arrive c x =>
    simp only [World.apply, arrive]
    split
    · exact nothing nofun
    · split
      · exact nothing nofun
      · have heard := Alike.modifyConnection w c (fun k => { k with inbox := k.inbox ++ [x] }) fun _ _ => id
        exact .stirs ((Stirs.alike heard).trans (.nudges (wakeReceiver_nudges _ c))) nofun
  | breakLink c =>
    have parted (k : Connection) (link : k.link = .over) : k.link ≠ .sound := by simp [link]
    exact .stirs (.alike (.modifyConnection w c _ fun k _ link => by rw [if_neg (parted k link), link])) nofun
  | enableMetrics enabled => exact .stirs (.one (.enables w rfl)) nofun
  | setTime now => exact .stirs (.one (.dates w rfl)) nofun

/-- Only steps of a running task are marked. -/
theorem marks_idle (still : i = .tick → w.current = none) : w.marks i = [] := by
  cases i with
  | tick => simp [marks, mark?, still rfl]
  | _ => rfl

/-! ### What stirring leaves alone -/

theorem Stirs.grown (h : Stirs i w v) : Grown i.Queues w.tasks v.tasks := by
  induction h with
  | refl => exact .refl _
  | tail _ step ih =>
    refine ih.trans ?_
    cases step with
    | alike h => exact .of_eq h.tasks
    | later | child | enables | dates | taken | counts => exact .refl _
    | nudge h => exact (Nudges.one h).grown
    | cancel _ => exact (cancel_nudges _ _).grown
    | spawn h => exact .append _ rfl rfl h

theorem Nudges.rest {H : TaskId → Prop} (h : Nudges H w v) : v.records = w.records ∧
    v.subscribers = w.subscribers ∧ v.calls = w.calls ∧ v.current = w.current ∧ v.processes = w.processes :=
  ⟨h.records, h.subscribers, h.calls, h.current, h.processes⟩

theorem Stir.rest (h : Stir i w v) : v.records = w.records ∧ v.subscribers = w.subscribers ∧
    v.calls = w.calls ∧ v.current = w.current ∧ v.processes = w.processes := by
  cases h with
  | alike h => exact ⟨h.records, h.subscribers, h.calls, h.current, h.processes⟩
  | later | child | enables | dates | taken | counts | spawn => exact ⟨rfl, rfl, rfl, rfl, rfl⟩
  | nudge h => exact (Nudges.one h).rest
  | cancel _ => exact (cancel_nudges _ _).rest

/-- Nothing that is recorded of slots or told to subscribers is stirred. -/
theorem Stirs.rest (h : Stirs i w v) : v.records = w.records ∧ v.subscribers = w.subscribers ∧
    v.calls = w.calls ∧ v.current = w.current ∧ v.processes = w.processes := by
  induction h with
  | refl => exact ⟨rfl, rfl, rfl, rfl, rfl⟩
  | tail _ step ih =>
    obtain ⟨records, subscribers, calls, current, processes⟩ := step.rest
    exact ⟨records.trans ih.1, subscribers.trans ih.2.1, calls.trans ih.2.2.1, current.trans ih.2.2.2.1,
      processes.trans ih.2.2.2.2⟩

end

end
end World
end InkPreview.Live
