import InkPreview.Proofs.Live.Bench
/-!
The bench in the midst of a step. While a task runs, its own post is what it is about to do; the
rest of the bench is read off the state. Nothing that a step does aside disturbs the order, and
whatever a task lands on with the same grip leaves it in order.
-/
namespace InkPreview.Live

def Task.post (k : Task) : Post := ⟨k.frames, k.signal, k.wait⟩

/-- Where a landing leaves the task is a place on its course, and with the same grip. -/
def Landing.Ready (ms : List Mark) (b : Bench) (t : TaskId) (grip : Grip) : Landing → Prop
  | .go fs s => gripOf fs = grip ∧ Stage ms b t ⟨fs, s, .running⟩ ∧
      ∀ r rest text, fs = .holding r :: rest → s ≠ .start (.compile text)
  | .park fs wait => gripOf fs = grip ∧ wait ≠ .running ∧ Stage ms b t ⟨fs, .value .unit, wait⟩
  | .turn fs => gripOf fs = grip ∧ Stage ms b t ⟨fs, .value .unit, .turn⟩
  | .timed fs wait n => gripOf fs = grip ∧ (wait = .alarm ∨ ∃ f, wait = .follower f) ∧
      Stage ms { b with alarms := b.alarms ++ [⟨b.clock + n, t⟩] } t ⟨fs, .value .unit, wait⟩
  | .finish _ => grip = .free

namespace World

/-- The bench, with the running task about to do what `now` says. -/
def bench (w : World) (now : Option (TaskId × List Frame × Signal)) : Bench where
  locks := w.slots.map (·.lock)
  posts := match now with
    | none => w.tasks.map Task.post
    | some (t, fs, s) => (w.tasks.map Task.post).set t ⟨fs, s, .running⟩
  alarms := w.alarms
  clock := w.clock
  quiet := w.setup.quiet

def Runs (w : World) (t : TaskId) : Prop := ∃ k, w.tasks[t]? = some k ∧ k.wait = .running

/-- The task that is said to run runs, and no other. -/
def Agrees (w : World) (now : Option (TaskId × List Frame × Signal)) : Prop :=
  ∀ t, w.Runs t ↔ ∃ fs s, now = some (t, fs, s)

section
variable {w v : World} {now : Option (TaskId × List Frame × Signal)} {t : TaskId} {fs : List Frame}
  {s : Signal} {ms : List Mark}

theorem bench_alike (h : w.Alike v) : v.bench now = w.bench now := by
  simp only [bench, h.slots, h.tasks, h.alarms, h.clock, h.setup]

theorem Alike.runs (h : w.Alike v) : v.Runs t ↔ w.Runs t := by
  rw [Runs, Runs, h.tasks]

theorem runs_modifyTask (u : TaskId) (f : Task → Task) : (w.modifyTask u f).Runs t ↔
    if u = t then ∃ k, w.tasks[t]? = some k ∧ (f k).wait = .running else w.Runs t := by
  by_cases here : u = t
  · subst here
    cases found : w.tasks[u]? <;> simp [Runs, modifyTask, found]
  · simp [Runs, modifyTask, here]

theorem Agrees.runs (h : w.Agrees (some (t, fs, s))) : w.Runs t := (h t).2 ⟨fs, s, rfl⟩

/-- The running task has something else to do. -/
theorem Agrees.again (h : w.Agrees (some (t, fs, s))) (fs' : List Frame) (s' : Signal) :
    w.Agrees (some (t, fs', s')) := by
  intro u
  rw [h u]
  simp

theorem Agrees.keep (h : w.Agrees now) (u : TaskId) {f : Task → Task}
    (kept : ∀ k, w.tasks[u]? = some k → ((f k).wait = .running ↔ k.wait = .running)) :
    (w.modifyTask u f).Agrees now := by
  intro t
  rw [runs_modifyTask, ← h t]
  split
  · rename_i here
    subst here
    simp only [Runs]
    exact exists_congr fun k => and_congr_right fun found => kept k found
  · rfl

/-- The running task stops. -/
theorem Agrees.stop (h : w.Agrees (some (t, fs, s))) {f : Task → Task}
    (stops : ∀ k, (f k).wait ≠ .running) : (w.modifyTask t f).Agrees none := by
  intro u
  rw [runs_modifyTask]
  split
  · simp [stops]
  · rename_i other
    simp [h u, other]

/-- A task starts to run. -/
theorem Agrees.begin (h : w.Agrees none) {k : Task} (found : w.tasks[t]? = some k) {f : Task → Task}
    (runs : (f k).wait = .running) : (w.modifyTask t f).Agrees (some (t, fs, s)) := by
  intro u
  rw [runs_modifyTask]
  split
  · rename_i here
    subst here
    simp [found, runs]
  · rename_i other
    simp [h u, other]

theorem Agrees.add (h : w.Agrees now) (k : Task) (idle : k.wait ≠ .running) :
    ({ w with tasks := w.tasks ++ [k] } : World).Agrees now := by
  intro t
  rw [← h t]
  simp only [Runs, getElem?_concat_iff]
  constructor
  · rintro ⟨k', found | ⟨-, rfl⟩, running⟩
    · exact ⟨k', found, running⟩
    · exact absurd running idle
  · rintro ⟨k', found, running⟩
    exact ⟨k', .inl found, running⟩

theorem running_post (runs : w.Runs t) :
    (w.bench (some (t, fs, s))).posts[t]? = some ⟨fs, s, .running⟩ := by
  obtain ⟨k, found, -⟩ := runs
  have lt := (List.getElem?_eq_some_iff.1 found).1
  simp [bench, lt]

theorem other_post {u : TaskId} (other : ∀ t fs s, now = some (t, fs, s) → t ≠ u) :
    (w.bench now).posts[u]? = w.tasks[u]?.map Task.post := by
  rcases now with _ | ⟨t, fs, s⟩
  · simp [bench]
  · have := other t fs s rfl
    simp [bench, this]

/-- A task that is found not to run is not the one that is said to. -/
theorem Agrees.other (h : w.Agrees now) {u : TaskId} {k : Task} (found : w.tasks[u]? = some k)
    (idle : k.wait ≠ .running) : ∀ t fs s, now = some (t, fs, s) → t ≠ u := by
  rintro t fs s eq rfl
  obtain ⟨k', found', running⟩ := (h t).2 ⟨fs, s, eq⟩
  obtain rfl := Option.some.inj (found.symm.trans found')
  exact idle running

theorem bench_put (w : World) (t : TaskId) (fs fs' : List Frame) (s s' : Signal) :
    w.bench (some (t, fs', s')) = (w.bench (some (t, fs, s))).put t ⟨fs', s', .running⟩ := by
  simp [bench, Bench.put]

theorem bench_yield (runs : w.Runs t) (fs fs' : List Frame) (s : Signal) (wait : Wait) :
    (w.yield t fs' wait).bench none =
      (w.bench (some (t, fs, s))).put t ⟨fs', .value .unit, wait⟩ := by
  have mapped : (w.yield t fs' wait).tasks.map Task.post =
      (w.tasks.map Task.post).set t ⟨fs', .value .unit, wait⟩ := by
    obtain ⟨k, found, -⟩ := runs
    simp only [World.yield, modifyTask, modify_found found, List.map_set]
    rfl
  simp only [bench, Bench.put, mapped, List.set_set]
  rfl

theorem bench_length : (w.bench now).posts.length = w.tasks.length := by
  rcases now with _ | ⟨t, fs, s⟩ <;> simp [bench]

theorem bench_modifyTask {f : Task → Task} {g : Post → Post} {u : TaskId}
    (post : ∀ k, (f k).post = g k.post) (other : ∀ t fs s, now = some (t, fs, s) → t ≠ u) :
    (w.modifyTask u f).bench now =
      { w.bench now with posts := (w.bench now).posts.modify u g } := by
  have mapped : (w.tasks.modify u f).map Task.post = (w.tasks.map Task.post).modify u g := by
    refine List.ext_getElem? fun i => ?_
    rw [List.getElem?_map, List.getElem?_modify, List.getElem?_modify, List.getElem?_map]
    cases w.tasks[i]? with
    | none => rfl
    | some k =>
      by_cases here : u = i
      · simp [here, post]
      · simp [here]
  rcases now with _ | ⟨t, fs, s⟩
  · simp only [bench, modifyTask, mapped]
  · have elsewhere := other t fs s rfl
    simp only [bench, modifyTask, mapped, Bench.mk.injEq, true_and, and_true]
    refine List.ext_getElem? fun i => ?_
    rw [List.getElem?_modify, List.getElem?_set, List.getElem?_set, List.getElem?_modify]
    by_cases here : t = i
    · subst here
      simp [Ne.symm elsewhere]
    · simp [here]

theorem bench_sameTask {f : Task → Task} (u : TaskId) (post : ∀ k, (f k).post = k.post) :
    (w.modifyTask u f).bench now = w.bench now := by
  have mapped : (w.tasks.modify u f).map Task.post = w.tasks.map Task.post := by
    refine List.ext_getElem? fun i => ?_
    rw [List.getElem?_map, List.getElem?_modify, List.getElem?_map]
    cases w.tasks[i]? with
    | none => rfl
    | some k =>
      by_cases here : u = i
      · simp [here, post]
      · simp [here]
  simp only [bench, modifyTask, mapped]

theorem bench_modifySlot {f : Slot → Slot} {g : Lock → Lock} (u : SlotId)
    (lock : ∀ k, (f k).lock = g k.lock) :
    (w.modifySlot u f).bench now = (w.bench now).setLock u g := by
  have mapped : (w.slots.modify u f).map (·.lock) = (w.slots.map (·.lock)).modify u g := by
    refine List.ext_getElem? fun i => ?_
    rw [List.getElem?_map, List.getElem?_modify, List.getElem?_modify, List.getElem?_map]
    cases w.slots[i]? with
    | none => rfl
    | some k =>
      by_cases here : u = i
      · simp [here, lock]
      · simp [here]
  simp only [bench, modifySlot, Bench.setLock, mapped]

theorem bench_sameSlot {f : Slot → Slot} (u : SlotId) (lock : ∀ k, (f k).lock = k.lock) :
    (w.modifySlot u f).bench now = w.bench now := by
  have same : (w.bench now).setLock u id = w.bench now := by
    have id_modify : (w.bench now).locks.modify u id = (w.bench now).locks := by
      refine List.ext_getElem? fun i => ?_
      rw [List.getElem?_modify]
      cases (w.bench now).locks[i]? with
      | none => rfl
      | some l => by_cases here : u = i <;> simp [here]
    rw [Bench.setLock, id_modify]
  exact (bench_modifySlot (g := id) u lock).trans same

theorem bench_wake {u : TaskId} (s : Signal) (other : ∀ t fs s, now = some (t, fs, s) → t ≠ u) :
    (w.wake u s).bench now = (w.bench now).wake u s := by
  have woken : (w.modifyTask u fun k => { k with wait := .turn, signal := s }).bench now = _ :=
    bench_modifyTask (g := fun p => { p with wait := .turn, signal := s }) (fun _ => rfl) other
  simp only [Bench.wake]
  rw [show (w.wake u s).bench now = { (w.modifyTask u fun k => { k with wait := .turn, signal := s }).bench now with
    alarms := w.alarms.filter (·.task != u) } from rfl, woken]
  rfl

/-! ### Order in the midst of a step -/

/-- The bench is in order, whatever the running task is about to do, and it is later than `b`. -/
structure Midst (ms : List Mark) (b : Bench) (w : World) (now : Option (TaskId × List Frame × Signal)) :
    Prop where
  agrees : w.Agrees now
  orderly : Orderly ms (w.bench now)
  since : b.Before (w.bench now)

/-- A compile that is about to begin is of an edit that still counts. -/
def Eager (w : World) : Prop :=
  ∀ t r fs text, w.current = some (t, .holding r :: fs, .start (.compile text)) →
    w.isCurrent r.slot r.generation = true

theorem Eager.same (h : w.Eager) (current : v.current = w.current) (seats : v.seats = w.seats) :
    v.Eager := by
  intro t r fs text running
  rw [isCurrent_seats seats]
  exact h t r fs text (current ▸ running)

theorem eager_idle (idle : w.current = none) : w.Eager := by
  intro t r fs text running
  rw [idle] at running
  cases running

/-- Between two steps. -/
structure Steady (ms : List Mark) (b : Bench) (w : World) : Prop where
  midst : Midst ms b w w.current
  eager : w.Eager

namespace Midst
variable {b : Bench}

theorem idle (h : Midst ms b w none) (idle : w.current = none) : Steady ms b w :=
  ⟨idle.symm ▸ h, eager_idle idle⟩

theorem alike (h : Midst ms b w now) (alike : w.Alike v) : Midst ms b v now where
  agrees t := alike.runs.trans (h.agrees t)
  orderly := bench_alike alike ▸ h.orderly
  since := bench_alike alike ▸ h.since

theorem sameTask (h : Midst ms b w now) {f : Task → Task} (u : TaskId)
    (post : ∀ k, (f k).post = k.post) : Midst ms b (w.modifyTask u f) now where
  agrees := h.agrees.keep u fun k _ => by
    have same : (f k).wait = k.wait := congrArg Post.wait (post k)
    rw [same]
  orderly := (bench_sameTask u post).symm ▸ h.orderly
  since := (bench_sameTask u post).symm ▸ h.since

theorem sameSlot (h : Midst ms b w now) {f : Slot → Slot} (u : SlotId)
    (lock : ∀ k, (f k).lock = k.lock) : Midst ms b (w.modifySlot u f) now where
  agrees := h.agrees
  orderly := (bench_sameSlot u lock).symm ▸ h.orderly
  since := (bench_sameSlot u lock).symm ▸ h.since

/-- A task whose post is not that of the running one does not run. -/
theorem other (h : Midst ms b w now) {u : TaskId} {p : Post} (found : (w.bench now).posts[u]? = some p)
    (idle : p.wait ≠ .running) : ∀ t fs s, now = some (t, fs, s) → t ≠ u := by
  rintro t fs s rfl rfl
  rw [running_post h.agrees.runs] at found
  obtain rfl := Option.some.inj found
  exact idle rfl

/-- A post that runs is the one of the running task. -/
theorem now_of_running (h : Midst ms b w now) {u : TaskId} {p : Post}
    (found : (w.bench now).posts[u]? = some p) (runs : p.wait = .running) :
    now = some (u, p.frames, p.signal) := by
  by_cases here : ∃ fs s, now = some (u, fs, s)
  · obtain ⟨fs, s, rfl⟩ := here
    rw [running_post h.agrees.runs] at found
    obtain rfl := Option.some.inj found
    rfl
  · have other : ∀ t fs s, now = some (t, fs, s) → t ≠ u := by
      rintro t fs s eq rfl
      exact here ⟨fs, s, eq⟩
    rw [other_post other, Option.map_eq_some_iff] at found
    obtain ⟨k, found, rfl⟩ := found
    exact absurd ((h.agrees u).1 ⟨k, found, runs⟩) here

theorem post_of_task (h : Midst ms b w now) {u : TaskId} {k : Task} (found : w.tasks[u]? = some k)
    (idle : k.wait ≠ .running) : (w.bench now).posts[u]? = some k.post := by
  rw [other_post (h.agrees.other found idle), found]
  rfl

theorem woken_agrees (h : Midst ms b w now) {u : TaskId} (s : Signal)
    (other : ∀ t fs s, now = some (t, fs, s) → t ≠ u) : (w.wake u s).Agrees now := by
  refine h.agrees.keep (f := fun k => { k with wait := .turn, signal := s }) u fun k found => ?_
  have idle : k.wait ≠ .running := by
    intro running
    obtain ⟨fs, s', eq⟩ := (h.agrees u).1 ⟨k, found, running⟩
    exact other u fs s' eq rfl
  simp [idle]

theorem woken (h : Midst ms b w now) {u : TaskId} {p : Post} (s : Signal)
    (found : (w.bench now).posts[u]? = some p) (idle : p.wait ≠ .running)
    (orderly : Orderly ms ((w.bench now).wake u s)) : Midst ms b (w.wake u s) now := by
  have other := h.other found idle
  refine ⟨h.woken_agrees s other, bench_wake s other ▸ orderly, ?_⟩
  rw [bench_wake s other]
  exact ⟨h.since.quiet, h.since.clock, by simpa [Bench.wake] using h.since.posts⟩

theorem wake (h : Midst ms b w now) {u : TaskId} {p : Post} {s : Signal}
    (found : (w.bench now).posts[u]? = some p) (asleep : ¬ p.wait.IsUp)
    (loose : ∀ x, p.wait ≠ .lock x) (ends : s = .value .unit ∨ s = .cancelled)
    (due : p.wait = .alarm → s = .value .unit → ∃ a ∈ w.alarms, a.task = u ∧ a.due ≤ w.clock) :
    Midst ms b (w.wake u s) now :=
  h.woken s found (fun up => asleep (.inr up)) (h.orderly.wake found asleep loose ends due)

/-- A task is woken, and the lock of a slot changes. -/
theorem relocked_woken (h : Midst ms b w now) {f : Slot → Slot} {g : Lock → Lock} {x : SlotId}
    (lock : ∀ k, (f k).lock = g k.lock) {u : TaskId} {p : Post} {s : Signal}
    (found : (w.bench now).posts[u]? = some p) (idle : p.wait ≠ .running)
    (orderly : Orderly ms (((w.bench now).setLock x g).wake u s)) :
    Midst ms b ((w.modifySlot x f).wake u s) now := by
  have other := h.other found idle
  have bench_eq : ((w.modifySlot x f).wake u s).bench now = ((w.bench now).setLock x g).wake u s := by
    rw [bench_wake s other, bench_modifySlot x lock]
  refine ⟨h.woken_agrees s other, bench_eq.symm ▸ orderly, bench_eq.symm ▸ ?_⟩
  exact ⟨h.since.quiet, h.since.clock, by simpa [Bench.wake, Bench.setLock] using h.since.posts⟩

/-! ### What is done aside -/

theorem nudge {H : TaskId → Prop} (h : Midst ms b w now) (step : Nudge H w v) : Midst ms b v now := by
  have up : ∀ {wait : Wait}, wait ≠ .turn → wait ≠ .running → ¬ wait.IsUp := by
    rintro wait turn running (up | up)
    · exact turn up
    · exact running up
  cases step with
  | ask _ => exact h.sameTask _ fun _ => rfl
  | regroup g => exact ⟨h.agrees, h.orderly, h.since⟩
  | @detach t k _ found loose =>
    have idle : k.wait ≠ .running := by
      intro running
      rw [running] at loose
      exact loose
    have turn : k.wait ≠ .turn := by
      intro turn
      rw [turn] at loose
      exact loose
    have post := h.post_of_task found idle
    by_cases lock : ∃ s, k.wait = .lock s
    · obtain ⟨s, wait⟩ := lock
      rw [wait, detach]
      exact h.relocked_woken (fun _ => rfl) post idle (h.orderly.unqueue post wait)
    · have detached : w.detach t k.wait = w.wake t .cancelled := by
        cases wait : k.wait with
        | lock s => exact absurd ⟨s, wait⟩ lock
        | _ => rfl
      rw [detached]
      exact h.wake post (up turn idle) (fun s eq => lock ⟨s, eq⟩) (.inr rfl) (by simp)
  | @ring a set due =>
    obtain ⟨p, post, waits⟩ := h.orderly.set a set
    have asleep : ¬ p.wait.IsUp := by rcases waits with eq | ⟨f, eq⟩ <;> rw [eq] <;> simp [Wait.IsUp]
    have loose : ∀ x, p.wait ≠ .lock x := by rcases waits with eq | ⟨f, eq⟩ <;> rw [eq] <;> simp
    exact h.wake post asleep loose (.inl rfl) fun _ _ => ⟨a, set, rfl, due⟩
  | @join t k g s found waits _ ends =>
    have post := h.post_of_task found (by simp [waits])
    exact h.wake post (up (by simp [Task.post, waits]) (by simp [Task.post, waits]))
      (by simp [Task.post, waits]) ends.symm fun alarm => by simp [Task.post, waits] at alarm
  | @learn t f k found waits =>
    have post := h.post_of_task found (by simp [waits])
    exact h.wake post (up (by simp [Task.post, waits]) (by simp [Task.post, waits]))
      (by simp [Task.post, waits]) (.inl rfl) fun alarm => by simp [Task.post, waits] at alarm
  | @hear t c k found waits =>
    have post := h.post_of_task found (by simp [waits])
    exact h.wake post (up (by simp [Task.post, waits]) (by simp [Task.post, waits]))
      (by simp [Task.post, waits]) (.inl rfl) fun alarm => by simp [Task.post, waits] at alarm

theorem nudges {H : TaskId → Prop} (h : Midst ms b w now) (steps : Nudges H w v) : Midst ms b v now :=
  steps.keep (fun _ _ => nudge) h

/-- A new task at the end of the list. -/
theorem added (h : Midst ms b w now) {k : Task} (stage : Stage ms (w.bench now) w.tasks.length k.post)
    (free : gripOf k.frames = .free) (idle : k.wait ≠ .running) :
    Midst ms b { w with tasks := w.tasks ++ [k] } now := by
  have bench_eq : ({ w with tasks := w.tasks ++ [k] } : World).bench now =
      { w.bench now with posts := (w.bench now).posts ++ [k.post] } := by
    rcases now with _ | ⟨t, fs, s⟩
    · simp [bench]
    · obtain ⟨k', found, -⟩ := h.agrees.runs
      have lt := (List.getElem?_eq_some_iff.1 found).1
      simp [bench, List.set_append_left, lt]
  refine ⟨h.agrees.add k idle, ?_, ?_⟩
  · rw [bench_eq]
    exact h.orderly.spawn (bench_length (w := w) ▸ stage) free
  · rw [bench_eq]
    exact ⟨h.since.quiet, h.since.clock, by simpa using Nat.le_succ_of_le h.since.posts⟩

theorem spawn (h : Midst ms b w now) {op : Op} {watchers : TaskId → List Job}
    (other : ∀ r, op ≠ .background r) : Midst ms b (w.spawn op watchers).2 now := by
  have next := h.added (k := ⟨[], .start op, .turn, false, watchers w.tasks.length, none⟩)
    (.plain nofun (fun r eq => other r (Signal.start.inj eq)) ⟨nofun, nofun⟩) rfl nofun
  exact ⟨next.agrees, next.orderly, next.since⟩

theorem watchAll (h : Midst ms b w now) (j : Job) (members : List TaskId) :
    Midst ms b (members.foldl (fun v m => v.watchOrQueue m j) w) now := by
  induction members generalizing w with
  | nil => exact h
  | cons m rest ih =>
    have watched : Midst ms b (w.watchOrQueue m j) now := by
      unfold watchOrQueue
      split
      · exact ⟨h.agrees, h.orderly, h.since⟩
      · exact h.sameTask m fun _ => rfl
    exact ih watched

theorem stopped (h : Midst ms b w now) (t f : TaskId) : Midst ms b (w.stopped t f) now := by
  have freed : Midst ms b (w.modifyTask f fun k => { k with watchers := [.report t f] }) now :=
    h.sameTask f fun _ => rfl
  exact freed.nudges (cancel_nudges _ f)

theorem aside (h : Midst ms b w now) (step : Aside t w v) : Midst ms b v now := by
  cases step with
  | alike same => exact h.alike same
  | files | call | process | launch => exact ⟨h.agrees, h.orderly, h.since⟩
  | @enroll members _ =>
    let grouped : World := { w with groups := w.groups ++ [⟨members, members.length, t, false⟩] }
    exact watchAll (w := grouped) ⟨h.agrees, h.orderly, h.since⟩ _ members
  | stop f => exact h.stopped t f
  | forestall p =>
    have begun : Midst ms b (w.spawn (.follow p) fun f => [.report t f]).2 now := h.spawn nofun
    exact begun.stopped t _
  | follow p => exact h.spawn nofun
  | spawn _ _ given =>
    refine h.spawn ?_
    rintro r rfl
    cases given

theorem asides (h : Midst ms b w now) (steps : Relation.ReflTransGen (Aside t) w v) :
    Midst ms b v now := by
  induction steps with
  | refl => exact h
  | tail _ step ih => exact ih.aside step

/-! ### Landings -/

theorem runs (h : Midst ms b w (some (t, fs, s))) : w.Runs t := h.agrees.runs

/-- The running task has no alarm. -/
theorem unalarmed (h : Midst ms b w (some (t, fs, s))) : ∀ a ∈ w.alarms, a.task ≠ t :=
  h.orderly.no_alarm (running_post h.runs) (by simp) (by simp)

theorem go (h : Midst ms b w (some (t, fs, s))) {fs' : List Frame} {s' : Signal}
    (same : gripOf fs' = gripOf fs)
    (stage : Stage ms (w.bench (some (t, fs, s))) t ⟨fs', s', .running⟩) :
    Midst ms b (w.go t fs' s') (some (t, fs', s')) := by
  have put : (w.go t fs' s').bench (some (t, fs', s')) = _ := bench_put w t fs fs' s s'
  have orderly := h.orderly.move (running_post h.runs) ⟨fs', s', .running⟩ w.alarms
    (by simp) same (fun a ha => .inl ⟨h.unalarmed a ha, ha⟩)
    (stage.mono (fun _ l _ at_s mem => ⟨l, at_s, mem⟩) (fun _ ha _ => ha) (Nat.le_refl _) rfl)
  refine ⟨h.agrees.again fs' s', put ▸ orderly, put ▸ ?_⟩
  exact ⟨h.since.quiet, h.since.clock, by simpa [Bench.put] using h.since.posts⟩

/-- The running task stops with these frames, perhaps with an alarm set. -/
theorem yield (h : Midst ms b w (some (t, fs, s))) {fs' : List Frame} {wait : Wait} {as : List Alarm}
    (same : gripOf fs' = gripOf fs)
    (stops : wait ≠ .running)
    (alarms : ∀ a ∈ as, a ∈ w.alarms ∨ a.task = t ∧ (wait = .alarm ∨ ∃ f, wait = .follower f))
    (stage : Stage ms { w.bench (some (t, fs, s)) with alarms := as } t ⟨fs', .value .unit, wait⟩) :
    Midst ms b (({ w with alarms := as } : World).yield t fs' wait) none := by
  have bench_eq : (({ w with alarms := as } : World).yield t fs' wait).bench none = _ :=
    bench_yield (w := { w with alarms := as }) h.runs fs fs' s wait
  have orderly := h.orderly.move (running_post h.runs) ⟨fs', .value .unit, wait⟩ as
    (by simp) same
    (fun a ha => (alarms a ha).imp (fun old => ⟨h.unalarmed a old, old⟩) id)
    (stage.mono (fun _ l _ at_s mem => ⟨l, at_s, mem⟩) (fun _ ha _ => ha) (Nat.le_refl _) rfl)
  have length : (w.bench (some (t, fs, s))).posts.length =
      (({ w with alarms := as } : World).bench (some (t, fs, s))).posts.length := rfl
  refine ⟨?_, bench_eq ▸ orderly, bench_eq ▸ ?_⟩
  · exact h.agrees.stop (f := fun k => { k with frames := fs', wait, signal := .value .unit }) fun _ => stops
  · exact ⟨h.since.quiet, h.since.clock, by simpa [Bench.put, ← length] using h.since.posts⟩

theorem park (h : Midst ms b w (some (t, fs, s))) {fs' : List Frame} {wait : Wait} (as : List Alarm)
    (same : gripOf fs' = gripOf fs)
    (stops : wait ≠ .running)
    (alarms : ∀ a ∈ as, a ∈ w.alarms ∨ a.task = t ∧ (wait = .alarm ∨ ∃ f, wait = .follower f))
    (stage : Stage ms { w.bench (some (t, fs, s)) with alarms := as } t ⟨fs', .value .unit, wait⟩) :
    Midst ms b (({ w with alarms := as } : World).park t fs' wait) none := by
  have yielded := h.yield same stops alarms stage
  have cleared : Midst ms b ((({ w with alarms := as } : World).yield t fs' wait).clearCancel t) none :=
    yielded.sameTask t fun _ => rfl
  rcases park_nudged { w with alarms := as } t fs' wait with eq | nudges
  · exact eq ▸ yielded
  · exact cleared.nudges nudges

theorem finish (h : Midst ms b w (some (t, fs, s))) (free : gripOf fs = .free) (r : Result) :
    Midst ms b (w.finish t r) none := by
  obtain ⟨f, ends, eq⟩ := finish_eq w t r
  obtain ⟨k, found, running⟩ := h.runs
  have post : (f k).post = ⟨[], k.signal, .ended⟩ := by
    obtain ⟨frames, signal, wait, -⟩ := ends k
    simp only [Task.post, frames, signal, wait]
  have bench_eq : (w.finish t r).bench none = { w.bench (some (t, fs, s)) with
      posts := (w.bench (some (t, fs, s))).posts.set t ⟨[], k.signal, .ended⟩ } := by
    rw [eq]
    simp only [bench, modifyTask, modify_found found, List.map_set, post, List.set_set]
  have orderly := h.orderly.move (running_post h.runs) ⟨[], k.signal, .ended⟩ w.alarms
    (by simp) (by simpa using free.symm)
    (fun a ha => .inl ⟨h.unalarmed a ha, ha⟩) .finished
  refine ⟨?_, bench_eq ▸ orderly, bench_eq ▸ ?_⟩
  · rw [eq]
    exact h.agrees.stop fun k => by simp [(ends k).2.2.1]
  · exact ⟨h.since.quiet, h.since.clock, by simpa using h.since.posts⟩

theorem land (h : Midst ms b w (some (t, fs, s))) {l : Landing}
    (ready : l.Ready ms (w.bench (some (t, fs, s))) t (gripOf fs)) :
    Steady ms b (w.land t l) := by
  cases l with
  | go fs' s' =>
    obtain ⟨same, stage, asks⟩ := ready
    refine ⟨h.go same stage, fun u r rest text running => ?_⟩
    obtain ⟨-, top, asked⟩ : _ ∧ fs' = _ ∧ s' = _ := by simpa [World.land, World.go] using running
    exact absurd asked (asks r rest text top)
  | park fs' wait =>
    obtain ⟨same, stops, stage⟩ := ready
    exact (h.park w.alarms same stops (fun a => .inl) stage).idle (current_park _ _ _ _)
  | turn fs' =>
    have parked : Midst ms b (w.park t fs' .turn) none := h.park w.alarms ready.1 (by simp) (fun a => .inl) ready.2
    exact idle ⟨parked.agrees, parked.orderly, parked.since⟩ (current_park _ _ _ _)
  | timed fs' wait n =>
    obtain ⟨same, waits, stage⟩ := ready
    have stops : wait ≠ .running := by
      rintro rfl
      simp at waits
    have alarms : ∀ a ∈ w.alarms ++ [⟨w.clock + n, t⟩], a ∈ w.alarms ∨
        a.task = t ∧ (wait = .alarm ∨ ∃ f, wait = .follower f) := by
      intro a ha
      rcases List.mem_append.1 ha with old | new
      · exact .inl old
      · exact .inr ⟨by rw [List.mem_singleton.1 new], waits⟩
    have parked : Midst ms b ((w.setAlarm t n).park t fs' wait) none := h.park _ same stops alarms stage
    exact parked.idle (current_park _ _ _ _)
  | finish r =>
    obtain ⟨f, -, eq⟩ := finish_eq w t r
    have ended : (w.finish t r).current = none := by rw [eq]
    exact (h.finish ready r).idle ended

theorem leads (h : Midst ms b w (some (t, fs, s))) {P : Landing → Prop} (leads : w.Leads t P v)
    (ready : ∀ l c, P l → l.Ready ms c t (gripOf fs)) : Steady ms b v := by
  obtain ⟨u, l, asides, hl, rfl⟩ := leads
  exact (h.asides asides).land (ready l _ hl)

/-! ### Turns -/

/-- A task gets its turn. -/
theorem resume (h : Midst ms b w none) (idle : w.current = none) (t : TaskId) :
    Steady ms b (w.resume t) := by
  rcases w.resume_cases t with same | ⟨k, found, turn, eq⟩
  · rw [same]
    exact h.idle idle
  · have post := h.post_of_task found (by simp [turn])
    rw [eq]
    generalize signal : (if k.mustCancel then Signal.cancelled else k.signal) = s
    have told : s = k.signal ∨ s = .cancelled := by
      rw [← signal]
      split
      · exact .inr rfl
      · exact .inl rfl
    have before := h.orderly.stage t _ post
    rw [Task.post, turn] at before
    have stage : Stage ms (w.bench none) t ⟨k.frames, s, .running⟩ := before.resume told
    have waits : k.post.wait = .turn := turn
    have orderly := h.orderly.move post ⟨k.frames, s, .running⟩ w.alarms
      (by simp [waits]) rfl
      (fun a ha => .inl ⟨h.orderly.no_alarm post (by simp [waits]) (by simp [waits]) a ha, ha⟩)
      (stage.mono (fun _ l _ at_s mem => ⟨l, at_s, mem⟩) (fun _ ha _ => ha) (Nat.le_refl _) rfl)
    have bench_eq : ((w.modifyTask t Task.resumed).go t k.frames s).bench (some (t, k.frames, s)) =
        { w.bench none with posts := (w.bench none).posts.set t ⟨k.frames, s, .running⟩ } := by
      simp only [bench, World.go, modifyTask, modify_found found, List.map_set, List.set_set]
    refine ⟨⟨h.agrees.begin found rfl, bench_eq ▸ orderly, bench_eq ▸ ?_⟩, ?_⟩
    · exact ⟨h.since.quiet, h.since.clock, by simpa using h.since.posts⟩
    · intro u r rest text running
      obtain ⟨-, top, asked⟩ : _ ∧ k.frames = _ ∧ s = _ := by simpa [World.go] using running
      rcases told with same | same
      · rw [top, ← same, asked] at before
        exact before.not_asked.elim
      · rw [same] at asked
        cases asked

theorem launch (h : Midst ms b w none) {op : Op} (other : ∀ r, op ≠ .background r) :
    Steady ms b (w.launch op).2 := by
  have bench_eq : (w.launch op).2.bench (some (w.tasks.length, [], .start op)) =
      { w.bench none with posts := (w.bench none).posts ++ [⟨[], .start op, .running⟩] } := by
    simp [bench, World.launch, Task.post]
  have orderly := h.orderly.spawn (p := ⟨[], .start op, .running⟩)
    (.plain plain_nil (fun r eq => other r (Signal.start.inj eq)) ⟨by simp, by simp⟩) rfl
  refine ⟨⟨fun u => ?_, bench_eq ▸ orderly, bench_eq ▸ ?_⟩, ?_⟩
  · have nobody : ¬ w.Runs u := by simp [h.agrees u]
    have only : (w.launch op).2.Runs u ↔ u = w.tasks.length := by
      simp only [Runs, World.launch, getElem?_concat_iff]
      constructor
      · rintro ⟨k, found | ⟨here, -⟩, running⟩
        · exact absurd ⟨k, found, running⟩ nobody
        · exact here
      · exact fun here => ⟨_, .inr ⟨here, rfl⟩, rfl⟩
    rw [only]
    simp [World.launch, eq_comm]
  · exact ⟨h.since.quiet, h.since.clock, by simpa using Nat.le_succ_of_le h.since.posts⟩
  · intro u r rest text running
    simp [World.launch] at running

end Midst

end
end World
end InkPreview.Live
