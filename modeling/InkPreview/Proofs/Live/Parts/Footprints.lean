import InkPreview.Proofs.Live.Loyal
import InkPreview.Proofs.Live.Parts.Independence
/-!
Footprints. Where subscribers ask for nothing but edits and the closing of the document they are told of, a step writes
to the slots, previews and tasks of no documents but those it is for, whatever else is asked of the program. Main
statement: `step_unaffected`.
-/
namespace InkPreview.Live.World

/-- The task is listed by a slot of one of the documents. -/
def Employs (w : World) (docs : DocId → Prop) (u : TaskId) : Prop :=
  ∃ (x : SlotId) (k : Slot), w.slots[x]? = some k ∧ docs k.doc ∧ u ∈ k.tasks

/-- No slot of that number is one of the documents'. -/
def Strange (w : World) (docs : DocId → Prop) (x : SlotId) : Prop := ∀ k, w.slots[x]? = some k → ¬ docs k.doc

/-- The task that takes the next step, or may be woken by it. -/
def mover? (w : World) : Option TaskId :=
  match w.current, w.queue with
  | some (t, _, _), _ => some t
  | none, .resume t :: _ | none, .report t _ :: _ => some t
  | none, .joined g :: _ => w.groups[g]?.map (·.waiter)
  | none, _ => none

/-- The next step is for the document: it edits or closes it, waits for it to be idle, goes on with one of its requests,
is taken by a task that works for it or wakes one, or strikes one off its list. -/
inductive IsFor (w : World) : DocId → Prop
  | edits {t : TaskId} {fs : List Frame} {doc : DocId} {text : String}
      (running : w.current = some (t, fs, .start (.edit doc text))) : IsFor w doc
  | closes {t : TaskId} {fs : List Frame} {doc : DocId}
      (running : w.current = some (t, fs, .start (.close doc))) : IsFor w doc
  | waits {t : TaskId} {fs : List Frame} {doc : DocId} (running : w.current = some (t, fs, .start (.waitIdle doc))) :
      IsFor w doc
  | idles {t : TaskId} {x : SlotId} {fs : List Frame} {s : Signal} {k : Slot}
      (running : w.current = some (t, .idling x :: fs, s)) (found : w.slots[x]? = some k) : IsFor w k.doc
  | requests {t : TaskId} {f : Frame} {fs : List Frame} {s : Signal} {r : Request}
      (running : w.current = some (t, f :: fs, s)) (carries : f.request? = some r) : IsFor w (.name r.doc)
  | works {t : TaskId} {x : SlotId} {k : Slot} (moves : w.mover? = some t) (found : w.slots[x]? = some k)
      (listed : t ∈ k.tasks) : IsFor w k.doc
  | forgets {x : SlotId} {t : TaskId} {rest : List Job} {k : Slot} (idle : w.current = none)
      (queue : w.queue = .forget x t :: rest) (found : w.slots[x]? = some k) : IsFor w k.doc

/-- The next step is for none of the documents; names that are the same are of them together. -/
structure Elsewhere (w : World) (docs : DocId → Prop) : Prop where
  whole : ∀ d d' : DocId, d.same d' → (docs d ↔ docs d')
  others : ∀ d, w.IsFor d → ¬ docs d

section
variable {docs : DocId → Prop} {H : TaskId → Prop} {ms : List Mark} {b : Bench} {now w v x y : World}
  {t u : TaskId} {s : SlotId}
  {k : Slot} {fs : List Frame} {sig : Signal} {l : Landing} {r : Request} {i : Input}

/-! ### What leaves the documents unaffected -/

namespace Unaffected

theorem refl (w : World) : Unaffected docs w w :=
  ⟨fun _ _ _ => Iff.rfl, fun _ _ => rfl, fun _ _ _ _ _ _ => ⟨rfl, rfl, Iff.rfl⟩⟩

/-- Only tasks that do not work for the documents have changed, and what is queued and set for them. -/
theorem others (h : Unaffected docs w x) (slots : y.slots = x.slots) (gallery : y.gallery = x.gallery)
    (tasks : ∀ u, w.Employs docs u → y.tasks[u]? = x.tasks[u]? ∧
      y.alarms.filter (·.task == u) = x.alarms.filter (·.task == u) ∧ (.resume u ∈ y.queue ↔ .resume u ∈ x.queue)) :
    Unaffected docs w y := by
  refine ⟨fun s k mine => ?_, fun name mine => ?_, fun s k found mine t mem => ?_⟩
  · rw [slots]
    exact h.slots s k mine
  · rw [gallery]
    exact h.previews name mine
  · obtain ⟨task, alarms, turn⟩ := h.tasks s k found mine t mem
    obtain ⟨task', alarms', turn'⟩ := tasks t ⟨s, k, found, mine, mem⟩
    exact ⟨task'.trans task, alarms'.trans alarms, turn'.trans turn⟩

theorem same (h : Unaffected docs w x) (slots : y.slots = x.slots) (gallery : y.gallery = x.gallery)
    (tasks : y.tasks = x.tasks) (alarms : y.alarms = x.alarms) (queue : y.queue = x.queue) : Unaffected docs w y := by
  refine h.others slots gallery fun u _ => ?_
  rw [tasks, alarms, queue]
  exact ⟨rfl, rfl, Iff.rfl⟩

theorem modifyTask (h : Unaffected docs w x) (other : ¬ w.Employs docs t) (f : Task → Task) :
    Unaffected docs w (x.modifyTask t f) := by
  refine h.others rfl rfl fun u mine => ⟨?_, rfl, Iff.rfl⟩
  have apart : t ≠ u := fun same => other (same ▸ mine)
  simp [World.modifyTask, apart]

theorem enqueue (h : Unaffected docs w x) {j : Job} (other : ∀ u, j = .resume u → ¬ w.Employs docs u) :
    Unaffected docs w (x.enqueue j) := by
  refine h.others rfl rfl fun u mine => ⟨rfl, rfl, ?_⟩
  have apart : .resume u ≠ j := fun same => other u same.symm mine
  simp [World.enqueue, apart]

theorem wake (h : Unaffected docs w x) (other : ¬ w.Employs docs t) (sig : Signal) : Unaffected docs w
    (x.wake t sig) := by
  have told : Unaffected docs w (x.modifyTask t fun k => { k with wait := .turn, signal := sig }) :=
    h.modifyTask other _
  refine (told.others (y := { x.modifyTask t fun k => { k with wait := .turn, signal := sig } with
    alarms := x.alarms.filter (·.task != t) }) rfl rfl fun u mine => ⟨rfl, ?_, Iff.rfl⟩).enqueue ?_
  · have apart : t ≠ u := fun same => other (same ▸ mine)
    rw [List.filter_filter]
    refine List.filter_congr fun a _ => ?_
    by_cases here : a.task = u
    · simp [here, Ne.symm apart]
    · simp [here]
  · rintro u ⟨⟩
    exact other

theorem setAlarm (h : Unaffected docs w x) (other : ¬ w.Employs docs t) (n : Nat) : Unaffected docs w
    (x.setAlarm t n) := by
  refine h.others rfl rfl fun u mine => ⟨rfl, ?_, Iff.rfl⟩
  have apart : t ≠ u := fun same => other (same ▸ mine)
  simp [World.setAlarm, List.filter_append, apart]

theorem modifySlot (h : Unaffected docs w x) (strange : w.Strange docs s) {f : Slot → Slot}
    (named : ∀ k, (f k).doc = k.doc) :
    Unaffected docs w (x.modifySlot s f) := by
  refine ⟨fun s' k mine => ?_, h.previews, h.tasks⟩
  rw [World.modifySlot, List.getElem?_modify]
  by_cases here : s = s'
  · subst here
    have absent : ∀ k, docs k.doc → x.slots[s]? ≠ some k :=
      fun k mine found => strange k ((h.slots s k mine).1 found) mine
    constructor
    · intro found
      obtain ⟨k', found, eq⟩ := Option.map_eq_some_iff.1 found
      rw [if_pos rfl] at eq
      exact absurd found (absent k' (by rw [← named k', eq]; exact mine))
    · exact fun found => absurd ((h.slots s k mine).2 found) (absent k mine)
  · simpa [here] using h.slots s' k mine

theorem opened (h : Unaffected docs w x) {doc : DocId} (other : ¬ docs doc) :
    Unaffected docs w { x with slots := x.slots ++ [.new doc] } := by
  refine ⟨fun s k mine => Iff.trans getElem?_concat_iff ?_, h.previews, h.tasks⟩
  rw [← h.slots s k mine]
  refine or_iff_left ?_
  rintro ⟨-, rfl⟩
  exact other mine

theorem gallery (h : Unaffected docs w x) {g : Gallery}
    (previews : ∀ name, docs (.name name) → g.previews.find? name = x.gallery.previews.find? name) :
    Unaffected docs w { x with gallery := g } :=
  ⟨h.slots, fun name mine => (previews name mine).trans (h.previews name mine), h.tasks⟩

theorem there (h : Unaffected docs w x) (there : ∀ u, w.Employs docs u → u < w.tasks.length) (mine : w.Employs docs u) :
    u < x.tasks.length := by
  obtain ⟨s, k, found, of, mem⟩ := mine
  have same := (h.tasks s k found of u mem).1
  rw [List.getElem?_eq_getElem (there u ⟨s, k, found, of, mem⟩)] at same
  exact (List.getElem?_eq_some_iff.1 same).1

/-- A task that is added is none of theirs. -/
theorem add (h : Unaffected docs w x) (there : ∀ u, w.Employs docs u → u < w.tasks.length) (k : Task) :
    Unaffected docs w { x with tasks := x.tasks ++ [k] } :=
  h.others rfl rfl fun _ mine => ⟨List.getElem?_append_left (h.there there mine), rfl, Iff.rfl⟩

theorem spawn (h : Unaffected docs w x) (there : ∀ u, w.Employs docs u → u < w.tasks.length) (op : Op)
    (watchers : TaskId → List Job) : Unaffected docs w (x.spawn op watchers).2 := by
  refine (h.add there _).enqueue ?_
  rintro u ⟨⟩ mine
  exact absurd (h.there there mine) (Nat.lt_irrefl _)

theorem watchOrQueue (h : Unaffected docs w x) (other : ¬ w.Employs docs u) (g : GroupId) :
    Unaffected docs w (x.watchOrQueue u (.joined g)) := by
  unfold World.watchOrQueue
  split
  · exact h.enqueue (by simp)
  · exact h.modifyTask other _

theorem enroll (h : Unaffected docs w x) (t : TaskId) {members : List TaskId}
    (others : ∀ u ∈ members, ¬ w.Employs docs u) :
    Unaffected docs w (x.enroll t members) := by
  have watched : ∀ {y : World} (us : List TaskId), (∀ u ∈ us, ¬ w.Employs docs u) → Unaffected docs w y →
      Unaffected docs w (us.foldl (fun v m => v.watchOrQueue m (.joined x.groups.length)) y) := by
    intro y us others h
    induction us generalizing y with
    | nil => exact h
    | cons u rest ih =>
      exact ih (fun m mem => others m (List.mem_cons_of_mem u mem)) (h.watchOrQueue (others u List.mem_cons_self) _)
  exact watched members others (h.same rfl rfl rfl rfl rfl)

theorem detach (h : Unaffected docs w x) (other : ¬ w.Employs docs t) {wait : Wait}
    (locks : ∀ s, wait = .lock s → w.Strange docs s) : Unaffected docs w (x.detach t wait) := by
  cases wait with
  | lock s =>
    have marked := h.modifySlot (locks s rfl) (f := fun k => { k with lock := k.lock.mark t .cancelled }) fun _ => rfl
    exact marked.wake other _
  | _ => exact h.wake other _

theorem yield (h : Unaffected docs w x) (other : ¬ w.Employs docs t) (fs : List Frame) (wait : Wait) :
    Unaffected docs w (x.yield t fs wait) :=
  (h.modifyTask other fun k => { k with frames := fs, wait, signal := .value .unit }).same rfl rfl rfl rfl rfl

/-- A step ends with the running task, which nobody has asked to cancel, on its landing. -/
theorem land (h : Unaffected docs w x) (other : ¬ w.Employs docs t) (unasked : x.Unasked t)
    (last : ∀ r, l ≠ .finish r) :
    Unaffected docs w (x.land t l) := by
  have asked : ∀ k, x.tasks[t]? = some k → k.mustCancel = false := fun k found => (unasked k found).asked
  cases l with
  | go => exact h.same rfl rfl rfl rfl rfl
  | park fs wait =>
    rw [World.land, park_unasked asked]
    exact h.yield other fs wait
  | turn fs =>
    rw [World.land, park_unasked asked]
    refine (h.yield other fs .turn).enqueue ?_
    rintro u ⟨⟩
    exact other
  | timed fs wait n =>
    rw [World.land, park_unasked (w := x.setAlarm t n) asked]
    exact (h.setAlarm other n).yield other fs wait
  | finish r => exact absurd rfl (last r)

/-- A task that ends has nobody resumed. -/
theorem finish (h : Unaffected docs w x) (other : ¬ w.Employs docs t) (r : Result)
    (silent : ∀ k, x.tasks[t]? = some k → ∀ u, .resume u ∉ k.watchers) : Unaffected docs w (x.finish t r) := by
  have told : ∀ {y : World} (js : List Job), (∀ u, .resume u ∉ js) → Unaffected docs w y →
      Unaffected docs w (js.foldl World.enqueue y) := by
    intro y js silent h
    induction js generalizing y with
    | nil => exact h
    | cons j rest ih =>
      refine ih (fun u mem => silent u (List.mem_cons_of_mem j mem)) (h.enqueue fun u resumes => ?_)
      exact absurd (resumes ▸ List.mem_cons_self) (silent u)
  refine told _ ?_ ((h.modifyTask other _).same rfl rfl rfl rfl rfl)
  cases found : x.tasks[t]? with
  | none => simp
  | some k => simpa [found] using silent k found

end Unaffected

/-! ### Cancelling -/

/-- Up to `x` the documents are unaffected, and what is cancelled with tasks of `H` are tasks of
`H`, none of which works for the documents or waits for a lock of their slots. -/
structure Confined (docs : DocId → Prop) (H : TaskId → Prop) (w x : World) : Prop where
  unaffected : Unaffected docs w x
  groups : ∀ (u : TaskId) k g, H u → x.tasks[u]? = some k → k.wait = .group g → ∀ m ∈ x.membersOf g, H m
  locks : ∀ (u : TaskId) k s, H u → x.tasks[u]? = some k → k.wait = .lock s → w.Strange docs s

namespace Confined

/-- Nobody has begun to wait for a group or a lock. -/
theorem mono (h : Confined docs H w x) (unaffected : Unaffected docs w y) (convened : Convened x.tasks y.tasks)
    (members : ∀ g, y.membersOf g = x.membersOf g) : Confined docs H w y := by
  refine ⟨unaffected, fun u k' g hit found waits => ?_, fun u k' s hit found waits => ?_⟩
  · rcases convened u k' found with lone | ⟨k, old, -, wait⟩
    · exact absurd waits (lone.apart g)
    · rw [members]
      exact h.groups u k g hit old (wait ▸ waits)
  · obtain ⟨k, old, waited⟩ := convened.locked found waits
    exact h.locks u k s hit old waited

theorem cancelWith (h : Confined docs H w x) (others : ∀ u, H u → ¬ w.Employs docs u) (hit : H t) (fuel : Nat)
    (trail : List TaskId) : Confined docs H w (World.cancelWith fuel trail t x).2 := by
  refine cancelWith_within (P := Confined docs H w) (H := H) (fun x u k g h hit => h.groups u k g hit) ?_ ?_ ?_ fuel trail t x hit h
  · intro x u h hit
    exact h.mono (h.unaffected.modifyTask (others u hit) _) (.modify _ _ fun _ => .inr ⟨rfl, rfl⟩) fun _ => rfl
  · intro x g h
    refine h.mono (h.unaffected.same rfl rfl rfl rfl rfl) (.refl _) fun g' => ?_
    simp only [membersOf, requestCancel, List.getElem?_modify, Option.map_eq_map, Option.map_map]
    congr 1
    cases x.groups[g']? with
    | none => rfl
    | some a => by_cases here : g = g' <;> simp [here]
  · intro x u k h hit found loose
    refine h.mono (h.unaffected.detach (others u hit) fun s waits => h.locks u k s hit found waits) ?_ fun g => ?_
    · rw [detach_tasks]
      exact .modify _ _ fun _ => .inl trivial
    · cases k.wait <;> rfl

end Confined

/-- A task that waits for no group is cancelled alone. -/
theorem Unaffected.cancel (h : Unaffected docs w x) (other : ¬ w.Employs docs u) (alone : x.Alone u)
    (locks : ∀ k s, x.tasks[u]? = some k → k.wait = .lock s → w.Strange docs s) : Unaffected docs w (x.cancel u) := by
  have confined : Confined docs (· = u) w x := by
    refine ⟨h, ?_, ?_⟩
    · rintro _ k g rfl found waits
      exact absurd waits (alone k g found)
    · rintro _ k s rfl
      exact locks k s
  refine (confined.cancelWith ?_ rfl _ []).unaffected
  rintro _ rfl
  exact other

theorem Unaffected.stopped (h : Unaffected docs w x) (other : ¬ w.Employs docs u) (alone : x.Alone u)
    (locks : ∀ k s, x.tasks[u]? = some k → k.wait = .lock s → w.Strange docs s) (t : TaskId) :
    Unaffected docs w (x.stopped t u) := by
  have kept : ∀ k', (x.modifyTask u fun k => { k with watchers := [.report t u] }).tasks[u]? = some k' →
      ∃ k, x.tasks[u]? = some k ∧ k'.wait = k.wait := by
    intro k' found
    simp only [World.modifyTask, List.getElem?_modify_eq] at found
    obtain ⟨k, old, rfl⟩ := Option.map_eq_some_iff.1 found
    exact ⟨k, old, rfl⟩
  refine (h.modifyTask other _).cancel other (fun k' g found => ?_) fun k' s found waits => ?_
  · obtain ⟨k, old, wait⟩ := kept k' found
    exact wait ▸ alone k g old
  · obtain ⟨k, old, wait⟩ := kept k' found
    exact locks k s old (wait ▸ waits)

/-- A task of `H` begins to wait for a group of tasks of `H`. If it has been asked to cancel it cancels these. -/
theorem Unaffected.park (h : Unaffected docs w y) {g : GroupId} (apart : ∀ u, H u → ¬ w.Employs docs u) (hit : H t)
    (confined : ∀ u, H u → y.Alone u ∧ ∀ k s, y.tasks[u]? = some k → k.wait = .lock s → w.Strange docs s)
    (members : ∀ m ∈ y.membersOf g, H m) : Unaffected docs w (y.park t fs (.group g)) := by
  have yielded := h.yield (apart t hit) fs (.group g)
  have tasks : ((y.yield t fs (.group g)).clearCancel t).tasks =
      y.tasks.modify t fun k => { k with frames := fs, wait := .group g, signal := .value .unit, mustCancel := false } := by
    simp [World.yield, clearCancel, World.modifyTask, List.modify_modify_eq, Function.comp_def]
  have waiting : Confined docs H w ((y.yield t fs (.group g)).clearCancel t) := by
    refine ⟨yielded.modifyTask (apart t hit) _, fun u k g' hit found waits m mem => ?_,
      fun u k s hit found locked => ?_⟩
    · rw [tasks, List.getElem?_modify] at found
      obtain ⟨k', old, rfl⟩ := Option.map_eq_some_iff.1 found
      split at waits
      · obtain rfl := Wait.group.inj waits
        exact members m mem
      · exact absurd waits ((confined u hit).1 k' g' old)
    · rw [tasks, List.getElem?_modify] at found
      obtain ⟨k', old, rfl⟩ := Option.map_eq_some_iff.1 found
      split at locked
      · cases locked
      · exact (confined u hit).2 k' s old locked
  have cancelled : Unaffected docs w (((y.yield t fs (.group g)).clearCancel t).cancel t) :=
    (waiting.cancelWith apart hit _ []).unaffected
  rcases park_cases y t fs (.group g) with eq | ⟨-, -, eq⟩ | ⟨-, -, eq⟩
  · exact eq ▸ yielded
  · exact eq ▸ cancelled.modifyTask (apart t hit) _
  · exact eq ▸ cancelled

/-- Only a task with no frames left ends. -/
theorem Next.finishes {res : Result} {ks : List Slot} (h : Next w t fs sig (.finish res) ks) : fs = [] ∧ sig.IsEnd := by
  cases h with
  | turn _ h =>
    cases h with
    | done h => exact ⟨rfl, by cases res <;> exact h ▸ trivial⟩
    | begins h => cases h
    | told _ _ h =>
      cases h with
      | script _ _ acted => cases acted
    | acted h => cases h
    | killed h | reaped h | killedNow _ h | lost _ _ h => cases h
  | closes h => cases h
  | rests h => rcases h with h | ⟨n, h⟩ <;> cases h
  | quieted h => rcases h with ⟨-, h⟩ | ⟨-, h | h⟩ <;> cases h
  | called h => rcases h with ⟨-, h⟩ | ⟨-, h⟩ <;> cases h

/-! ### Whose the tasks are that a step touches -/

/-- A task that waits for a lock works for an edit of the lock's slot. -/
theorem Flight.locked_mine (h : Flight ms b w) {q : Post} (post : w.post? u = some q) (locked : q.wait = .lock s) :
    ∃ r, Mine ms u r ∧ r.slot = s := by
  have stage := h.stage post
  obtain ⟨fs, sig, wait⟩ := q
  obtain rfl : wait = .lock s := locked
  generalize at_s : Wait.lock s = wait at stage
  cases stage with
  | queueing mine => exact ⟨_, mine, (Wait.lock.inj at_s).symm⟩
  | plain _ _ loose | holding _ _ _ loose => exact absurd at_s.symm (loose.2 s)
  | fresh _ _ up | rested _ _ _ up | dropped up | called _ _ _ up | leaving up =>
    rcases up with rfl | rfl
    · cases at_s
    · cases at_s
  | finished | quiet | asked => cases at_s

namespace Ready

/-- The task of an edit is listed by no slot but the edit's. -/
theorem not_employs (h : Ready ms b w) (mine : Mine ms u r) (strange : w.Strange docs r.slot) : ¬ w.Employs docs u := by
  rintro ⟨z, k, found, of, listed⟩
  obtain ⟨r', mine', rfl⟩ := h.enlisted.mine z k.unlocked u (by rw [records_getElem?, found]; rfl) (.inr listed)
  obtain rfl := h.flight.booked.request_unique mine mine'
  exact strange k found of

/-- What listed tasks and the one that waits for quiet work for. -/
theorem not_employs_listed (h : Ready ms b w) (found : w.slots[s]? = some k) (listed : k.pending = some u ∨ u ∈ k.tasks)
    (strange : w.Strange docs s) : (∃ r, Mine ms u r ∧ r.slot = s) ∧ ¬ w.Employs docs u := by
  obtain ⟨r, mine, rfl⟩ := h.enlisted.mine s k.unlocked u (by rw [records_getElem?, found]; rfl) listed
  exact ⟨⟨r, mine, rfl⟩, h.not_employs mine strange⟩

theorem not_employs_member (h : Ready ms b w) (mem : u ∈ w.tasksOf s) (strange : w.Strange docs s) :
    ¬ w.Employs docs u := by
  obtain ⟨k, found, listed⟩ := mem_tasksOf.1 mem
  exact (h.not_employs_listed found (.inr listed) strange).2

/-- A task of an edit waits for no lock but that of its slot. -/
theorem locks (h : Ready ms b w) (convened : Convened w.tasks x.tasks) (mine : Mine ms u r)
    (strange : w.Strange docs r.slot)
    {k' : Task} (found : x.tasks[u]? = some k') (locked : k'.wait = .lock s) : w.Strange docs s := by
  obtain ⟨k, old, waits⟩ := convened.locked found locked
  obtain ⟨r', mine', rfl⟩ := h.flight.locked_mine (h.flight.steady.midst.post_of_task old (by simp [waits])) waits
  exact h.flight.booked.request_unique mine mine' ▸ strange

theorem employed_there (h : Ready ms b w) (mine : w.Employs docs u) : u < w.tasks.length := by
  obtain ⟨z, k, found, -, listed⟩ := mine
  exact h.flight.sane.members z u (mem_tasksOf.2 ⟨k, found, listed⟩)

/-- A document of another name is none of them. -/
theorem strange_of_seat (whole : ∀ d d' : DocId, d.same d' → (docs d ↔ docs d')) {doc : DocId}
    (other : ¬ docs doc) {a : Seat}
    (seat : w.seats[s]? = some a) (same : a.doc.same doc) : w.Strange docs s := by
  intro k found mine
  rw [seats_getElem?, found] at seat
  obtain rfl := Option.some.inj seat
  exact other ((whole _ _ same).1 mine)

/-- A step that is for none of the documents touches none of their slots. -/
theorem touched (h : Ready ms b w) (away : w.Elsewhere docs) (touches : w.Touches s) : w.Strange docs s := by
  cases touches with
  | @edits t fs doc text running =>
    have other := away.others _ (.edits running)
    cases registered : w.slotOf? doc with
    | some z =>
      obtain ⟨a, seat, -, same⟩ := slotOf?_seat registered
      have here : (w.editBegun doc text).slot = z := by simp [editBegun, ensureSlot_of_some registered]
      exact here ▸ strange_of_seat away.whole other seat same
    | none =>
      have here : (w.editBegun doc text).slot = w.slots.length := by simp [editBegun, ensureSlot_of_none registered]
      intro k found
      rw [here, List.getElem?_eq_none (Nat.le_refl _)] at found
      cases found
  | closes running registered =>
    obtain ⟨a, seat, -, same⟩ := slotOf?_seat registered
    exact strange_of_seat away.whole (away.others _ (.closes running)) seat same
  | @requests t f fs sig r running ends carries =>
    have serves : Serves w.seats r.slot r.doc := by
      have fits := (h.flight.sane.running t _ sig running).1.top
      cases f with
      | quiet r' | queueing r' | holding r' =>
        obtain rfl := Option.some.inj carries
        exact fits
      | _ => cases carries
    obtain ⟨a, seat, named⟩ := serves
    exact strange_of_seat away.whole (away.others _ (.requests running carries)) seat (by simp [named, DocId.same])

end Ready

theorem Shows.other {doc : String} (shown : w.Shows doc) (away : w.Elsewhere docs) : ¬ docs (.name doc) := by
  cases shown with
  | edit running => exact away.others _ (.edits running)
  | answer running same => exact same ▸ away.others _ (.requests running rfl)

/-- A step that touches no slot leaves what is recorded in them. -/
theorem Deeds.records_untouched (h : now.Deeds w v) (untouched : ∀ s, ¬ now.Touches s) : v.records = w.records := by
  induction h with
  | refl => rfl
  | tail _ step ih =>
    refine Eq.trans ?_ ih
    cases step with
    | aside h => exact h.records
    | slots rewrites =>
      cases rewrites with
      | slot touches => exact absurd touches (untouched _)
      | opens running => exact absurd (.edits running) (untouched _)
    | gauge | render | discard | call | hire => rfl
    | cancel => exact records_cancel _

namespace Ready

/-- A task that is there to follow a process is listed by no slot, and waits for neither a lock nor a group. -/
theorem follower (h : Ready ms b w) (unhired : Unhired ms w) (follows : w.Follows t u) :
    ¬ w.Employs docs u ∧ ∀ k, w.tasks[u]? = some k → (∀ s, k.wait ≠ .lock s) ∧ ∀ g, k.wait ≠ .group g := by
  obtain ⟨p, fs, sig, running⟩ := follows
  have tails := h.tailed.limiting t _ sig p u running List.mem_cons_self
  refine ⟨?_, fun k found => h.flight.follower_alone h.meeting tails found⟩
  rintro ⟨z, k, found, -, listed⟩
  obtain ⟨r, mine, -⟩ := h.enlisted.mine z k.unlocked u (by rw [records_getElem?, found]; rfl) (.inr listed)
  exact unhired t p u (by rw [stackOf_running running]; exact List.mem_cons_self) r mine

/-- Those for whose end a task begins to wait work for none of the documents, unless it closes one. -/
theorem convoked (h : Ready ms b w) (away : w.Elsewhere docs)
    (unclosed : ∀ t fs doc, w.current ≠ some (t, fs, .start (.close doc)))
    (deeds : w.Deeds w x) (unaffected : Unaffected docs w x) {members : List TaskId} (convokes : x.Convokes t members) :
    ∀ u ∈ members, ¬ w.Employs docs u := by
  have current : x.current = w.current := Deeds.current deeds
  cases convokes with
  | closes running => exact absurd (current ▸ running) (unclosed _ _ _)
  | @idles fs sig z running idles listed =>
    have running : w.current = some (t, fs, sig) := current ▸ running
    have untouched : ∀ s, ¬ w.Touches s := by
      intro s touches
      cases touches with
      | edits running' | closes running' =>
        cases running.symm.trans running'
        rcases idles with ⟨doc, eq, -⟩ | ⟨ends, -⟩
        · cases eq
        · exact ends
      | requests running' ends carries =>
        cases running.symm.trans running'
        rcases idles with ⟨doc, rfl, -⟩ | ⟨-, rest, eq⟩
        · exact ends
        · obtain ⟨rfl, -⟩ := List.cons.inj eq
          cases carries
    have records := deeds.records_untouched untouched
    have strange : w.Strange docs z := by
      rcases idles with ⟨doc, rfl, registered⟩ | ⟨-, rest, rfl⟩
      · obtain ⟨a, seat, -, same⟩ := slotOf?_seat registered
        rw [seats_of_records records, ← seats_of_records rfl] at seat
        exact strange_of_seat away.whole (away.others _ (.waits running)) seat same
      · exact fun k found => away.others _ (.idles running found)
    intro u mem
    exact h.not_employs_member (tasksOf_records records z ▸ listed u mem) strange
  | starts unlisted =>
    rintro u mem ⟨z, k, found, of, listed⟩
    exact unlisted u mem z (mem_tasksOf.2 ⟨k, (unaffected.slots z k of).2 found, listed⟩)

/-- What a task does aside that closes no document leaves the documents unaffected. -/
theorem aside_unaffected (h : Ready ms b w) (unhired : Unhired ms w)
    (away : w.Elsewhere docs) (unclosed : ∀ t fs doc, w.current ≠ some (t, fs, .start (.close doc)))
    (deeds : w.Deeds w x)
    (unaffected : Unaffected docs w x) (step : Aside t x y) : Unaffected docs w y := by
  have there : ∀ u, w.Employs docs u → u < w.tasks.length := fun u => h.employed_there
  have convened : Convened w.tasks x.tasks := Deeds.convened deeds
  cases step with
  | alike same => exact unaffected.same same.slots same.gallery same.tasks same.alarms same.queue
  | files | call | process | launch => exact unaffected.same rfl rfl rfl rfl rfl
  | enroll _ convokes => exact unaffected.enroll t (h.convoked away unclosed deeds unaffected convokes)
  | spawn | follow => exact unaffected.spawn there _ _
  | stop f follows =>
    obtain ⟨p, fs, sig, running⟩ := follows
    have followed : w.Follows t f := ⟨p, fs, sig, (Deeds.current deeds).symm.trans running⟩
    obtain ⟨other, still⟩ : ¬ w.Employs docs f ∧ _ := h.follower unhired followed
    refine unaffected.stopped other (convened.alone fun k g found => (still k found).2 g) (fun k' s found locked => ?_) t
    obtain ⟨k, old, waited⟩ := convened.locked found locked
    exact absurd waited ((still k old).1 s)
  | forestall p =>
    have new : ∀ k, (x.spawn (.follow p) fun f => [.report t f]).2.tasks[x.tasks.length]? = some k →
      k.wait = .turn := by
      intro k found
      obtain rfl : _ = k := Option.some.inj (List.getElem?_concat_length.symm.trans found)
      rfl
    refine (unaffected.spawn there _ _).stopped (fun mine => ?_) (fun k g found => by simp [new k found])
      (fun k s found locked => by simp [new k found] at locked) t
    exact absurd (unaffected.there there mine) (Nat.lt_irrefl _)

/-- What a step does before it lands leaves the documents unaffected, if it closes none. -/
theorem deeds_unaffected (h : Ready ms b w) (unhired : Unhired ms w)
    (away : w.Elsewhere docs) (unclosed : ∀ t fs doc, w.current ≠ some (t, fs, .start (.close doc)))
    (deeds : w.Deeds w x) : Unaffected docs w x := by
  have there : ∀ u, w.Employs docs u → u < w.tasks.length := fun u => h.employed_there
  induction deeds with
  | refl => exact .refl w
  | @tail x y steps step ih =>
    have convened : Convened w.tasks x.tasks := Deeds.convened steps
    cases step with
    | aside step => exact h.aside_unaffected unhired away unclosed steps ih step
    | slots rewrites =>
      cases rewrites with
      | slot touches named => exact ih.modifySlot (h.touched away touches) named
      | opens running => exact ih.opened (away.others _ (.edits running))
    | gauge => exact ih.same rfl rfl rfl rfl rfl
    | @render doc mode shown =>
      refine ih.gallery fun name mine => Gallery.find?_render_other _ ?_ mode
      rintro rfl
      exact shown.other away mine
    | discard running => exact absurd running (unclosed _ _ _)
    | call queued =>
      obtain ⟨s, k, touches, found, waits⟩ := queued
      obtain ⟨q, post, -, lock⟩ :=
        h.flight.steady.midst.orderly.queued s k.lock _ .waiting (by simp [bench, found]) waits
      obtain ⟨r, mine, rfl⟩ := h.flight.locked_mine post (lock rfl)
      exact ih.wake (h.not_employs mine (h.touched away touches)) _
    | hire => exact ih.spawn there _ _
    | @cancel u drops =>
      have alone : x.Alone u := convened.alone (h.strikes_alone (.inl drops))
      cases drops with
      | @pending t fs doc text z k _ running registered found pending =>
        have here : (w.editBegun doc text).slot = z := by simp [editBegun, ensureSlot_of_some registered]
        have strange : w.Strange docs z := here ▸ h.touched away (.edits running)
        obtain ⟨⟨r, mine, rfl⟩, other⟩ := h.not_employs_listed found (.inl pending) strange
        exact ih.cancel other alone fun k' s at_u locked => h.locks convened mine strange at_u locked
      | member running => exact absurd running (unclosed _ _ _)

/-! ### Closing -/

/-- A document is taken away with its preview, and others are not. -/
theorem removeSlot_unaffected (h : Ready ms b w) (away : w.Elsewhere docs) {doc : DocId}
    (running : w.current = some (t, fs, .start (.close doc))) :
    Unaffected docs w (w.removeSlot doc).2 := by
  unfold removeSlot
  extract_lets z x y
  have shut : Unaffected docs w x := by
    cases registered : w.slotOf? doc with
    | some s =>
      have modified : x = w.modifySlot s fun k => { k with isOpen := false } := by simp only [x, z, registered]
      exact modified ▸ (Unaffected.refl w).modifySlot (h.touched away (.closes running registered)) fun _ => rfl
    | none =>
      have still : x = w := by simp only [x, z, registered]
      exact still.symm ▸ .refl w
  cases doc with
  | name name =>
    refine (shut.gallery fun name' mine => Previews.find?_remove_other _ ?_).same rfl rfl rfl rfl rfl
    rintro rfl
    exact away.others _ (.closes running) mine
  | number | truth => exact shut.same rfl rfl rfl rfl rfl

/-- The tasks that a closing cancels, and the one that closes, wait for no group and for no lock of the documents. -/
theorem closing_confined (h : Ready ms b w) {doc : DocId} (running : w.current = some (t, fs, .start (.close doc)))
    (registered : w.slotOf? doc = some s) (strange : w.Strange docs s) (convened : Convened w.tasks x.tasks)
    (hit : u ∈ w.tasksOf s ∨ u = t) : x.Alone u ∧ ∀ k z, x.tasks[u]? = some k → k.wait = .lock z →
    w.Strange docs z := by
  rcases hit with mem | rfl
  · obtain ⟨k, found, listed⟩ := mem_tasksOf.1 mem
    obtain ⟨⟨r, mine, rfl⟩, -⟩ := h.not_employs_listed found (.inr listed) strange
    refine ⟨convened.alone (h.strikes_alone (.inl (.member running registered found listed))), fun k' z => ?_⟩
    exact h.locks convened mine strange
  · obtain ⟨k, found, runs⟩ := (h.flight.steady.midst.agrees u).2 ⟨fs, _, running⟩
    refine ⟨convened.alone fun k' g found' => ?_, fun k' z found' locked => ?_⟩
    · obtain rfl := Option.some.inj (found.symm.trans found')
      simp [runs]
    · obtain ⟨k'', old, waited⟩ := convened.locked found' locked
      obtain rfl := Option.some.inj (found.symm.trans old)
      cases runs.symm.trans waited

/-- A closing cancels the tasks of the document's slot, of which the task that closes may be one, and leaves other
documents unaffected. -/
theorem close_unaffected (h : Ready ms b w) (away : w.Elsewhere docs) {doc : DocId}
    (running : w.current = some (t, fs, .start (.close doc)))
    (other : ¬ w.Employs docs t) : Unaffected docs w (w.beginClose t fs doc) := by
  have removed := h.removeSlot_unaffected away running
  obtain ⟨taken, tasks, -, members⟩ := w.removeSlot_rest doc
  by_cases busy : ∃ z, w.slotOf? doc = some z ∧ w.tasksOf z ≠ []
  case neg =>
    unfold beginClose
    generalize w.removeSlot doc = p at *
    obtain ⟨z, v⟩ := p
    obtain rfl : z = _ := taken
    cases registered : w.slotOf? doc with
    | none => exact removed.same rfl rfl rfl rfl rfl
    | some z =>
      have none : (v.slots[z]?.map Slot.tasks).getD [] = [] := by
        by_contra some
        exact busy ⟨z, registered, members z ▸ some⟩
      dsimp only
      rw [none]
      cases doc <;> exact removed.same rfl rfl rfl rfl rfl
  obtain ⟨z, registered, busy⟩ := busy
  let H (u : TaskId) : Prop := u ∈ w.tasksOf z ∨ u = t
  have strange : w.Strange docs z := h.touched away (.closes running registered)
  have confined : ∀ {x : World}, Convened w.tasks x.tasks → ∀ u, H u →
      x.Alone u ∧ ∀ k y, x.tasks[u]? = some k → k.wait = .lock y → w.Strange docs y :=
    fun convened u => h.closing_confined running registered strange convened
  have apart : ∀ u, H u → ¬ w.Employs docs u := by
    rintro u (mem | rfl)
    · exact h.not_employs_member mem strange
    · exact other
  have struck : Unaffected docs w (w.closingReach doc z).2 := by
    refine (cancelEach_keep (P := Confined docs H w) (fun m mem y struck => struck.cancelWith apart (.inl mem) _ []) ?_).unaffected
    have still : Convened w.tasks (w.removeSlot doc).2.tasks := .of_eq tasks
    exact ⟨removed, fun u k g hit found waits => absurd waits ((confined still u hit).1 k g found),
      fun u k s hit => (confined still u hit).2 k s⟩
  have convened : Convened w.tasks (w.closingReach doc z).2.tasks :=
    (Convened.of_eq tasks).trans (cancelAll_nudges _ _).convened
  rw [beginClose_tasks t fs registered busy]
  dsimp only
  generalize (w.closingReach doc z).2 = x at struck convened ⊢
  split
  · exact struck.same rfl rfl rfl rfl rfl
  · have enrolled : Unaffected docs w (x.enroll t (w.tasksOf z)) := struck.enroll t fun u mem => apart u (.inl mem)
    have convened := convened.trans (enroll_convened x t (w.tasksOf z))
    have members : (x.enroll t (w.tasksOf z)).membersOf x.groups.length = w.tasksOf z := by
      simp [membersOf, enroll_group]
    exact enrolled.park apart (.inr rfl) (confined convened) fun m mem => .inl (members ▸ mem)

/-! ### Steps -/

/-- A step of the running task that is for none of the documents leaves them unaffected. -/
theorem move_unaffected (h : Ready ms b w) (unhired : Unhired ms w) (balanced : w.ledger.Balanced)
    (away : w.Elsewhere docs) (running : w.current = some (t, fs, sig)) : Unaffected docs w (w.move t fs sig) := by
  have other : ¬ w.Employs docs t := by
    rintro ⟨z, k, found, of, listed⟩
    exact away.others k.doc (.works (by simp [mover?, running]) found listed) of
  by_cases closing : ∃ doc, sig = .start (.close doc)
  · obtain ⟨doc, rfl⟩ := closing
    exact h.close_unaffected away running other
  by_cases last : fs = [] ∧ sig.IsEnd
  · obtain ⟨rfl, ends⟩ := last
    obtain ⟨r, step⟩ : ∃ r, w.move t [] sig = w.finish t r := by
      cases sig with
      | start => exact ends.elim
      | value | fault | cancelled => exact ⟨_, rfl⟩
    rw [step]
    refine (Unaffected.refl w).finish other r fun k found u mem => ?_
    have watches : .resume u ∈ w.ledger.watchers t := by simpa [ledger, found] using mem
    rcases balanced.own t (h.flight.running_out running) _ watches with ⟨g, eq⟩ | ended
    · cases eq
    · cases ended
  · have unclosed : ∀ t' fs' doc, w.current ≠ some (t', fs', .start (.close doc)) := by
      intro t' fs' doc running'
      cases running.symm.trans running'
      exact closing ⟨doc, rfl⟩
    obtain ⟨x, l, deeds, next, eq⟩ := h.flight.sane.reaches running
    have unasked : x.Unasked t := by
      refine h.deeds_unasked running (fun doc z start => ?_) deeds
      exact absurd ⟨doc, start⟩ closing
    rw [eq]
    refine (h.deeds_unaffected unhired away unclosed deeds).land other unasked ?_
    rintro r rfl
    exact last next.finishes

end Ready

/-- A job that is for none of the documents leaves them unaffected. -/
theorem perform_unaffected (others : ∀ d, w.IsFor d → ¬ docs d) (idle : w.current = none) {j : Job} {rest : List Job}
    (queue : w.queue = j :: rest) : Unaffected docs w (({ w with queue := rest } : World).perform j) := by
  have apart : ∀ u, w.mover? = some u → ¬ w.Employs docs u := by
    rintro u moves ⟨z, k, found, of, listed⟩
    exact others k.doc (.works moves found listed) of
  have taken : Unaffected docs w { w with queue := rest } := by
    refine (Unaffected.refl w).others rfl rfl fun u mine => ⟨rfl, rfl, ?_⟩
    have away : .resume u ≠ j := fun same => apart u (by simp [mover?, idle, queue, ← same]) mine
    simp [queue, away]
  cases j with
  | resume t =>
    have other := apart t (by simp [mover?, idle, queue])
    show Unaffected docs w (({ w with queue := rest } : World).resume t)
    rcases resume_cases { w with queue := rest } t with same | ⟨k, -, -, eq⟩
    · rw [same]
      exact taken
    · rw [eq]
      exact (taken.modifyTask other _).same rfl rfl rfl rfl rfl
  | forget z u => exact taken.modifySlot (fun k found => others _ (.forgets idle queue found)) fun _ => rfl
  | joined g =>
    have counted : Unaffected docs w (({ w with queue := rest } : World).counted g) := taken.same rfl rfl rfl rfl rfl
    show Unaffected docs w (({ w with queue := rest } : World).join g)
    unfold join
    dsimp only
    split
    · rename_i a at_g
      rw [List.getElem?_modify_eq] at at_g
      obtain ⟨a, found, rfl⟩ := Option.map_eq_some_iff.1 at_g
      split
      · exact counted.wake (apart a.waiter (by simp [mover?, idle, queue, found])) _
      · exact counted
    · exact counted
  | report t f =>
    have other := apart t (by simp [mover?, idle, queue])
    show Unaffected docs w (({ w with queue := rest } : World).learn t f)
    unfold learn
    dsimp only
    split
    · exact taken.wake other _
    · exact taken

/-! ### Main result -/

/-- Whatever is asked of the program, as long as subscribers ask for nothing but edits and the
closing of the document they are told of: a step that is for none of some documents leaves their
slots and previews as they are, and the tasks that work for them with their alarms and turns; and so
does the beginning or queueing up of an operation. -/
theorem step_unaffected (new : w.IsNew) (locals : ∀ y ∈ w.subscribers, y.IsLocal) {inputs : List Input}
    (allowed : ∀ i ∈ inputs, i.IsPublic) (loyal : ∀ y, .subscribe y ∈ inputs → y.IsLocal)
    (whole : ∀ d d' : DocId, d.same d' → (docs d ↔ docs d')) :
    ((∀ d, (w.run inputs).IsFor d → ¬ docs d) → Unaffected docs (w.run inputs) ((w.run inputs).apply .tick)) ∧
      ∀ op, Unaffected docs (w.run inputs) ((w.run inputs).apply (.begin op)) ∧
        Unaffected docs (w.run inputs) ((w.run inputs).apply (.queue op)) := by
  have h : Ready (w.marksAlong inputs) (w.bench none) (w.run inputs) := run_ready new locals allowed loyal
  have there : ∀ u, (w.run inputs).Employs docs u → u < (w.run inputs).tasks.length := fun u => h.employed_there
  refine ⟨fun others => ?_, fun op => ⟨?_, (Unaffected.refl _).spawn there op _⟩⟩
  · have unhired := run_unhired new allowed
    have balanced := run_balanced new allowed
    generalize w.run inputs = v at *
    show Unaffected docs v v.tick
    cases current : v.current with
    | some c =>
      obtain ⟨t, fs, sig⟩ := c
      rw [tick_running current]
      exact h.move_unaffected unhired balanced ⟨whole, others⟩ current
    | none =>
      cases queue : v.queue with
      | nil =>
        rw [tick_idle current queue]
        exact .refl v
      | cons j rest =>
        rw [tick_job current queue]
        exact perform_unaffected others current queue
  · show Unaffected docs _ (if (w.run inputs).current.isNone then ((w.run inputs).launch op).2 else w.run inputs)
    split
    · exact ((Unaffected.refl _).add there _).same rfl rfl rfl rfl rfl
    · exact .refl _

end
end InkPreview.Live.World
