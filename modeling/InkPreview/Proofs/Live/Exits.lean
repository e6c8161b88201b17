import InkPreview.Proofs.Live.Convergence
import InkPreview.Proofs.Live.Counting
import InkPreview.Proofs.Live.Retired
import InkPreview.Proofs.Live.Tame
/-!
What becomes of the edits whose text has to be compiled. The task of such an edit gives way to a newer edit while it
waits for quiet, is found out of date as the lock is its own, or comes to the answer of a compile, which is delivered
if the edit still counts by then. Main statement: `Conduct.apply`.
-/
namespace InkPreview.Live

/-- How the task of an edit is through with it. -/
inductive Exit
  /-- A newer edit came while the task waited for quiet. -/
  | abandoned
  /-- A newer edit came while the task waited for the lock. -/
  | superseded
  /-- The text was compiled, and a newer edit had come by then. -/
  | dropped
  /-- What the compile came to is recorded and told. -/
  | delivered
  deriving DecidableEq, Repr

/-- The exits that a task has taken. -/
def exitsOf (xs : List (TaskId × Exit)) (t : TaskId) : List Exit :=
  xs.filterMap fun p => if p.1 = t then some p.2 else none

@[simp] theorem exitsOf_append (xs ys : List (TaskId × Exit)) (t : TaskId) :
    exitsOf (xs ++ ys) t = exitsOf xs t ++ exitsOf ys t := List.filterMap_append

@[simp] theorem exitsOf_self (t : TaskId) (x : Exit) : exitsOf [(t, x)] t = [x] := by simp [exitsOf]

theorem exitsOf_nil {xs : List (TaskId × Exit)} {t : TaskId} (none : ∀ x, (t, x) ∉ xs) : exitsOf xs t = [] := by
  refine List.eq_nil_iff_forall_not_mem.2 fun x mem => ?_
  obtain ⟨⟨u, y⟩, taken, eq⟩ := List.mem_filterMap.1 mem
  obtain ⟨rfl, rfl⟩ : u = t ∧ y = x := by simpa using eq
  exact none y taken

theorem mem_exitsOf {xs : List (TaskId × Exit)} {t : TaskId} {x : Exit} : x ∈ exitsOf xs t ↔ (t, x) ∈ xs := by
  simp [exitsOf]

/-- A task that rests goes on to do so for as long as nothing happens to its frames. -/
theorem Post.Carries.resting {q q' : Post} {r : Request} (h : q'.Carries r) (frames : q'.frames = q.frames)
    (resting : q.IsResting) : q'.IsResting := by
  rcases resting with ⟨x, mem⟩ | ⟨none, -⟩
  · exact .inl ⟨x, frames ▸ mem⟩
  · obtain ⟨fs, s, wait⟩ := q'
    obtain rfl : fs = [] := frames.trans none
    refine .inr ⟨rfl, h.out, r, ?_⟩
    have request := h.request
    simp only [Post.request?, List.getLast?_nil] at request
    split at request
    · rename_i bottom
      cases bottom
    · exact Option.some.inj request ▸ rfl
    · cases request

namespace World

/-- Who takes an exit with the next step, and which. -/
def exits (w : World) : List (TaskId × Exit) :=
  match w.current with
  | some (_, _, .start (.edit doc _)) => (w.waiter? doc).toList.map fun u => (u, .abandoned)
  | some (t, .queueing r :: _, .value _) => if w.isCurrent r.slot r.generation then [] else [(t, .superseded)]
  | some (t, .holding r :: _, .value (.outcome _)) | some (t, .holding r :: _, .fault _) =>
    [(t, if w.isCurrent r.slot r.generation then .delivered else .dropped)]
  | _ => []

def exitsOn (w : World) : Input → List (TaskId × Exit)
  | .tick => w.exits
  | _ => []

/-- The exits that are taken in the course of the inputs. -/
def exitsAlong (w : World) : List Input → List (TaskId × Exit)
  | [] => []
  | i :: rest => w.exitsOn i ++ (w.apply i).exitsAlong rest

/-- No slot has the task registered to wait for quiet. -/
def Unlisted (w : World) (t : TaskId) : Prop := ∀ (x : SlotId) k, w.records[x]? = some k → k.pending ≠ some t

/-- The task has started no process. -/
def Barren (w : World) (t : TaskId) : Prop := ∀ p ∈ w.processes, p.owner ≠ t

/-- How far the task of an edit is, and the exits that it has taken. -/
inductive Conduct (ms : List Mark) (w : World) (t : TaskId) (r : Request) : List Exit → Prop
  | awaits {k : Slot} {q : Post} (found : w.records[r.slot]? = some k) (pending : k.pending = some t)
      (newest : k.generation = r.generation) (carrier : w.Carrier t r) (post : w.post? t = some q)
      (resting : q.IsResting) (duty : w.HasDuty t (.edit r.slot)) (barren : w.Barren t) : Conduct ms w t r []
  | queues {q : Post} (carrier : w.Carrier t r) (post : w.post? t = some q) (frames : q.frames = [.queueing r])
      (duty : w.HasDuty t (.edit r.slot)) (barren : w.Barren t) (unlisted : w.Unlisted t) : Conduct ms w t r []
  | compiles {q : Post} (pre : List Frame) (carrier : w.Carrier t r) (post : w.post? t = some q)
      (frames : q.frames = pre ++ [.holding r]) (duty : w.HasDuty t (.edit r.slot)) (unlisted : w.Unlisted t) :
      Conduct ms w t r []
  | leaves {x : Exit} (doomed : w.Doomed t) (barren : w.Barren t) (unlisted : w.Unlisted t)
      (early : x = .abandoned ∨ x = .superseded) : Conduct ms w t r [x]
  | through {q : Post} {x : Exit} (post : w.post? t = some q) (retired : q.IsRetired)
      (started : ∃ time, .started time t r r.text ∈ ms) (unlisted : w.Unlisted t)
      (late : x = .dropped ∨ x = .delivered) : Conduct ms w t r [x]

/-- Every task that works for an edit is somewhere on its way, and only such tasks are registered to wait for quiet. -/
structure Conducted (ms : List Mark) (w : World) (xs : List (TaskId × Exit)) : Prop where
  tame : w.Tame
  conduct : ∀ t r, Mine ms t r → Conduct ms w t r (exitsOf xs t)
  listed : ∀ (x : SlotId) k t, w.records[x]? = some k → k.pending = some t → ∃ r, Mine ms t r ∧ r.slot = x
  taken : ∀ t x, (t, x) ∈ xs → ∃ r, Mine ms t r

section
variable {ms : List Mark} {b : Bench} {w v : World} {t u : TaskId} {r r' : Request} {fs : List Frame} {s : Signal}
  {q : Post} {k : Slot} {i : Input} {l : Landing} {ks : List Slot} {x : SlotId} {xs : List (TaskId × Exit)} {e : Exit}

/-! ### Who takes an exit -/

theorem waiter?_eq {doc : DocId} (h : w.waiter? doc = some u) : ∃ x k, w.slotOf? doc = some x ∧ w.records[x]? = some k ∧
    k.pending = some u ∧ w.hasEnded u = false := by
  obtain ⟨found, out⟩ := Option.filter_eq_some_iff.1 h
  obtain ⟨x, registered, found⟩ := Option.bind_eq_some_iff.1 found
  obtain ⟨k, at_x, pending⟩ := Option.bind_eq_some_iff.1 found
  exact ⟨x, k.unlocked, registered, by rw [records_getElem?, at_x]; rfl, pending, by simpa using out⟩

/-- A task that takes an exit waits for quiet as an edit comes, or runs and has what it has waited for. -/
theorem mem_exits (h : (t, e) ∈ w.exits) :
    (e = .abandoned ∧ ∃ u fs doc text x k, w.current = some (u, fs, .start (.edit doc text)) ∧ w.slotOf? doc = some x ∧
      w.records[x]? = some k ∧ k.pending = some t) ∨
    (∃ r fs v, w.current = some (t, .queueing r :: fs, .value v) ∧ e = .superseded ∧
      w.isCurrent r.slot r.generation = false) ∨
    ∃ r fs o, w.current = some (t, .holding r :: fs, answerSignal o) ∧
      e = if w.isCurrent r.slot r.generation then .delivered else .dropped := by
  unfold exits at h
  split at h
  · rename_i u fs doc text running
    obtain ⟨u', mem, eq⟩ := List.mem_map.1 h
    obtain ⟨rfl, rfl⟩ : u' = t ∧ .abandoned = e := by simpa using eq
    obtain ⟨x, k, registered, found, pending, -⟩ := waiter?_eq (Option.mem_toList.1 mem)
    exact .inl ⟨rfl, u, fs, doc, text, x, k, running, registered, found, pending⟩
  · rename_i u r fs val running
    split at h
    · cases h
    · rename_i stale
      obtain ⟨rfl, rfl⟩ : t = u ∧ e = .superseded := by simpa using h
      exact .inr (.inl ⟨r, fs, val, running, rfl, by simpa using stale⟩)
  · rename_i u r fs o running
    obtain ⟨rfl, how⟩ : t = u ∧ _ := by simpa using h
    exact .inr (.inr ⟨r, fs, .ok o, running, how⟩)
  · rename_i u r fs f running
    obtain ⟨rfl, how⟩ : t = u ∧ _ := by simpa using h
    exact .inr (.inr ⟨r, fs, .error f, running, how⟩)
  · cases h

theorem exits_answered {o : Except Fault Outcome} (running : w.current = some (t, .holding r :: fs, answerSignal o)) :
    w.exits = [(t, if w.isCurrent r.slot r.generation then .delivered else .dropped)] := by
  cases o with
  | ok o => simp [exits, running, answerSignal]
  | error f => simp [exits, running, answerSignal]

theorem mem_exitsOn (h : (t, e) ∈ w.exitsOn i) : i = .tick ∧ (t, e) ∈ w.exits := by
  cases i with
  | tick => exact ⟨rfl, h⟩
  | _ => cases h

/-- A task that is registered nowhere takes no exit unless it has the lock, or the answer of the compile. -/
theorem Unlisted.no_exit (h : w.Unlisted t) (queues : ∀ r fs v, w.current ≠ some (t, .queueing r :: fs, .value v))
    (holds : ∀ r fs o, w.current ≠ some (t, .holding r :: fs, answerSignal o)) (i : Input) :
    exitsOf (w.exitsOn i) t = [] := by
  refine exitsOf_nil fun e mem => ?_
  obtain ⟨rfl, mem⟩ := mem_exitsOn mem
  rcases mem_exits mem with ⟨-, u, fs, doc, text, x, k, -, -, found, pending⟩ | ⟨r, fs, v, running, -⟩ | ⟨r, fs, o, running, -⟩
  · exact h x k found pending
  · exact queues r fs v running
  · exact holds r fs o running

theorem Unlisted.apply (h : w.Unlisted t) (sane : w.Sane) (there : t < w.tasks.length) (i : Input) :
    (w.apply i).Unlisted t := by
  intro x k' found pending
  cases sane.apply_revised i found with
  | kept at_x later => exact h x _ at_x (later.pending t pending)
  | settled _ _ _ at_x later => exact h x _ at_x (later.pending t pending)
  | edited tick running here of_doc generation waits =>
    have worker := waits t pending
    simp only [editBegun, workerFor] at worker
    split at worker
    · split at worker
      · exact Nat.lt_irrefl _ (Option.some.inj worker ▸ there)
      · cases worker
    · cases worker

theorem Barren.apply (h : w.Barren t) (flight : Flight ms b w) (i : Input)
    (idle : ∀ fs text, w.current ≠ some (t, fs, .start (.compile text))) : (w.apply i).Barren t := by
  intro k' mem own
  obtain ⟨p, found⟩ := List.mem_iff_getElem?.1 mem
  rcases (flight.apply_bred i).1.process p k' found with ⟨k, old, same, -⟩ | ⟨-, fs, text, running⟩
  · exact h k (List.mem_of_getElem? old) (same.symm.trans own)
  · exact idle fs text (own ▸ running)

/-! ### Carriers in tame runs -/

/-- What a task is there for it stays there for. -/
theorem HasDuty.apply {d : Duty} (h : w.HasDuty t d) (flight : Flight ms b w) (contained : i = .tick → w.Contained)
    (calm : ∀ u, i ≠ .cancel u) : (w.apply i).HasDuty t d := by
  have happens := w.apply_happens i
  generalize w.apply i = v at happens
  cases happens with
  | moves running =>
    obtain ⟨l, -, moved⟩ := (contained rfl).lands flight running
    exact moved.hasDuty h
  | @resumes u rest =>
    rcases ({ w with queue := rest } : World).resume_cases u with same | ⟨k, -, -, eq⟩
    · rw [same]
      exact h
    · rw [eq]
      exact hasDuty_resumed rfl h
  | forgets | subscribes => exact h
  | launches =>
    obtain ⟨k, found, duty⟩ := h
    exact ⟨k, getElem?_concat_iff.2 (.inl found), duty⟩
  | stirs stirs => exact h.treated (stirs.treats calm)

/-- A task that is at work for an edit waits for no group. -/
theorem Flight.carries_alone (h : Flight ms b w) (meeting : w.Meeting) (found : w.post? t = some q)
    (carries : q.Carries r) :
    w.Alone t := by
  intro k g at_t waits
  have post := h.steady.midst.post_of_task at_t (by rw [waits]; nofun)
  obtain rfl := Option.some.inj (found.symm.trans post)
  obtain ⟨f, gs, frames, meets⟩ := meeting t k at_t g waits
  have stage := h.stage found
  have carries : (⟨k.frames, k.signal, k.wait⟩ : Post).Carries r := carries
  have stage : Stage ms (w.bench w.current) t ⟨k.frames, k.signal, k.wait⟩ := stage
  rw [frames, waits] at stage carries
  generalize at_top : f :: gs = fs at stage carries
  generalize k.signal = s at stage carries
  generalize at_wait : Wait.group g = wait at stage carries
  cases stage with
  | plain plain other => exact request?_plain plain other r carries.request
  | fresh | finished => cases at_top
  | quiet | queueing | asked => cases at_wait
  | rested _ _ _ up | dropped up | called _ _ _ up | leaving up =>
    rcases up with rfl | rfl
    · cases at_wait
    · cases at_wait
  | holding _ compiles =>
    cases compiles <;> (obtain ⟨rfl, -⟩ := List.cons.inj at_top; exact meets)

/-- A step strikes nobody who is at work for an edit and is not registered to wait for quiet. -/
theorem Unlisted.unstruck (h : w.Unlisted t) (tame : w.Tame) (spares : w.SparesSlots) (duty : w.HasDuty t (.edit x)) :
    ¬ w.Strikes t := by
  intro strikes
  rcases strikes_cases spares strikes with ⟨-, -, -, -, y, k, -, -, found, pending⟩ | ⟨u, p, fs, s, running⟩
  · exact h y k found pending
  · cases duty.unique (tame.attended.limiting u _ s p t running List.mem_cons_self)

/-- A task that takes no step and is not cancelled carries the request on. -/
theorem Tame.bystands (h : w.Tame) (flight : Flight ms b w) (allowed : i.IsPublic) (calm : ∀ u, i ≠ .cancel u)
    (contained : i = .tick → w.Contained) (spares : i = .tick → w.SparesSlots) (expects : w.Expects)
    (carrier : w.Carrier t r) (found : w.post? t = some q) (steps : ¬ w.Steps i t)
    (unstruck : i = .tick → ¬ w.Strikes t) :
    (w.apply i).Carrier t r ∧ ∃ q', (w.apply i).post? t = some q' ∧ q'.frames = q.frames := by
  obtain ⟨⟨unharmed, q₁, found₁, carries⟩, attended⟩ := carrier
  obtain rfl := Option.some.inj (found.symm.trans found₁)
  have steps' : i = .tick → ∀ fs s, w.current ≠ some (t, fs, s) := fun tick fs s running => steps ⟨tick, fs, s, running⟩
  have unharmed' := unharmed.apply flight (flight.carries_alone h.meeting found carries) contained calm unstruck
    fun fs s l ks tick running _ => absurd running (steps' tick fs s)
  obtain ⟨q', found', frames, carries'⟩ := flight.apply_carries allowed found carries unharmed steps
  refine ⟨⟨⟨unharmed', q', found', carries'⟩, fun y p f at_t mem => ?_⟩, q', found', frames⟩
  obtain rfl := Option.some.inj (found'.symm.trans at_t)
  rw [frames] at mem
  have follows := h.attended.follows flight found mem
  refine (attended q p f found mem).follower flight (h.follows t) follows contained calm fun tick strikes => ?_
  rcases strikes_cases (spares tick) strikes with ⟨-, -, -, -, y, k, -, -, at_y, pending⟩ | ⟨u, p', fs, s, running⟩
  · cases follows.unique (expects y k f at_y pending).1
  · cases follows.unique (h.attended.limiting u _ s p' f running List.mem_cons_self)
    exact steps' tick _ s running

/-! ### Landings of a request -/

theorem Next.begins_rest (h : Next w t fs (.start (.background r)) l ks) :
    l = .turn (.quiet r :: fs) ∨ ∃ n, l = .timed (.quiet r :: fs) .alarm n := by
  cases h with
  | turn aside =>
    rcases aside.1 with given | ⟨p, eq⟩
    · cases given
    · cases eq
  | rests h => exact h
  | @settles _ _ _ o _ answered =>
    have ends := answerSignal_end o
    rw [← answered] at ends
    exact ends.elim
  | drops ends => exact ends.elim

theorem Next.ends_rest {val : Value} (h : Next w t (.quiet r :: fs) (.value val) l ks)
    (current : w.isCurrent r.slot r.generation = true) :
    ks = (w.records.modify r.slot fun k => if k.pending = some t then { k with pending := none } else k) ∧
      (l = .park (.queueing r :: fs) (.lock r.slot) ∨ l = .go (.holding r :: fs) (.start (.compile r.text))) := by
  cases h with
  | turn aside => cases aside.plain trivial
  | quieted h =>
    rcases h with ⟨stale, -⟩ | ⟨-, h⟩
    · simp [stale] at current
    · exact ⟨rfl, h⟩

theorem Next.ends_queue {val : Value} (h : Next w t (.queueing r :: fs) (.value val) l ks) :
    w.isCurrent r.slot r.generation = false ∧ l = .go fs (.value .unit) ∨
      w.isCurrent r.slot r.generation = true ∧ l = .go (.holding r :: fs) (.start (.compile r.text)) := by
  cases h with
  | turn aside => cases aside.plain trivial
  | called h => exact h

theorem Next.ends_compile {o : Except Fault Outcome} (h : Next w t (.holding r :: fs) (answerSignal o) l ks) :
    ∃ gs, l = .go (gs ++ fs) (.value .unit) ∧ Plain gs := by
  have ends := answerSignal_end o
  generalize answered : answerSignal o = s at h ends
  cases h with
  | turn aside => cases aside.plain ends
  | settles => exact ⟨[_], rfl, all_cons rfl nofun⟩
  | drops => exact ⟨[], rfl, nofun⟩
  | lets => cases o <;> cases answered
  | breaks h => rcases h with h | h <;> cases h
  | edits | misnamed | closes | rests => exact ends.elim

/-- What an edit leaves in its slot. -/
theorem Next.books {doc : DocId} {text : String} (h : Next w t fs (.start (.edit doc text)) l ks)
    (distinct : Distinct w.seats) :
    ∃ k, ks[(w.editBegun doc text).slot]? = some k ∧ k.pending = (w.editBegun doc text).worker ∧
      k.generation = (w.editBegun doc text).generation ∧ ∀ name, doc = .name name → ∃ u, k.lastUpdate = some u ∧
        u.IsFor (w.editBegun doc text).slot name (w.editBegun doc text).generation (firstMode text) := by
  obtain ⟨-, -, a, seat, -, -, generation⟩ := bumped_seats distinct doc text
  rw [seats_of_records rfl, List.getElem?_map] at seat
  obtain ⟨k, found, rfl⟩ := Option.map_eq_some_iff.1 seat
  cases h with
  | turn aside => exact absurd rfl (aside.2.1 _ _)
  | @edits _ name _ u _ begun shown =>
    subst begun
    refine ⟨_, (List.getElem?_modify_eq ..).trans (congrArg _ found), rfl, generation, fun name' eq => ?_⟩
    obtain rfl := DocId.name.inj eq
    exact ⟨u, rfl, shown⟩
  | misnamed unnamed =>
    refine ⟨_, (List.getElem?_modify_eq ..).trans (congrArg _ found), ?_, generation,
      fun name eq => absurd eq (unnamed name)⟩
    cases doc with
    | name name => exact absurd rfl (unnamed name)
    | number | truth => rfl
  | @settles _ _ _ o _ answered =>
    have ends := answerSignal_end o
    rw [← answered] at ends
    exact ends.elim
  | drops ends => exact ends.elim

theorem Sane.edit_books (h : w.Sane) {doc : DocId} {text : String}
    (running : w.current = some (t, fs, .start (.edit doc text))) :
    ∃ k, w.tick.records[(w.editBegun doc text).slot]? = some k ∧ k.pending = (w.editBegun doc text).worker ∧
      k.generation = (w.editBegun doc text).generation ∧ ∀ name, doc = .name name → ∃ u, k.lastUpdate = some u ∧
        u.IsFor (w.editBegun doc text).slot name (w.editBegun doc text).generation (firstMode text) := by
  obtain ⟨v, l, -, next, eq⟩ := h.reaches running
  rw [tick_running running, eq, records_land]
  exact next.books h.distinct

/-! ### Steps of the task of an edit -/

/-- What a step of a task starts from and leads to. -/
structure Strides (ms : List Mark) (b : Bench) (w : World) (t : TaskId) (fs : List Frame) (s : Signal) : Prop where
  flight : Flight ms b w
  tame : w.Tame
  contained : w.Contained
  running : w.current = some (t, fs, s)
  unstruck : ¬ w.Strikes t

theorem Strides.carries (h : Strides ms b w t fs s) (carrier : w.Carrier t r) (next : Next w t fs s l ks)
    (moved : w.Moved (w.move t fs s) t l) (noClose : ∀ doc, s ≠ .start (.close doc)) (carries : l.post.Carries r) :
    w.tick.Carrier t r ∧ w.tick.post? t = some l.post := by
  obtain ⟨q, found, at_work⟩ := carrier.carries.post
  rw [tick_running h.running]
  exact carrier.stepped h.flight h.running next moved (h.flight.carries_alone h.tame.meeting found at_work) h.unstruck
    (fun k at_t must => (h.tame.asked t k at_t must).1) noClose carries

/-- A task that waits for quiet goes on to wait for it, or queues up for the lock, or holds it: its edit counts. -/
theorem Strides.awaits (h : Strides ms b w t fs s) {ms' : List Mark} (found : w.records[r.slot]? = some k)
    (isOpen : k.isOpen = true) (pending : k.pending = some t) (newest : k.generation = r.generation)
    (carrier : w.Carrier t r) (resting : Post.IsResting ⟨fs, s, .running⟩) (duty : w.HasDuty t (.edit r.slot))
    (barren : w.Barren t)
    (sole : ∀ (y : SlotId) k, w.records[y]? = some k → k.pending = some t → y = r.slot) :
    Conduct ms' w.tick t r [] := by
  obtain ⟨q, post, carries⟩ := carrier.carries.post
  obtain rfl := Option.some.inj (post.symm.trans (h.flight.post?_running h.running))
  obtain ⟨l, next, moved⟩ := h.contained.lands h.flight h.running
  have calm := (carrier.carries.unharmed.running fs s h.running).2
  have duty' : w.tick.HasDuty t (.edit r.slot) := by
    rw [tick_running h.running]
    exact moved.hasDuty duty
  have barren' (idle : ∀ text, s ≠ .start (.compile text)) : w.tick.Barren t := by
    refine barren.apply h.flight .tick fun gs text running => ?_
    cases h.running.symm.trans running
    exact idle text rfl
  rcases (h.flight.stage post).resting resting with ⟨⟨x, quiet⟩, alarm | ⟨at_end, -⟩⟩ | ⟨none, ⟨x, begins⟩, -⟩
  · cases alarm
  · -- the quiet time is over
    obtain rfl : fs = [.quiet x] := quiet
    obtain rfl := carries.bottom rfl
    cases s with
    | start | fault => exact at_end.elim
    | cancelled => exact absurd rfl calm
    | value val =>
      have current := newest ▸ isCurrent_of_record found isOpen
      obtain ⟨records, landed⟩ := next.ends_rest current
      have unlisted : w.tick.Unlisted t := by
        rw [tick_running h.running]
        intro y k' at_y waits
        rw [records] at at_y
        obtain ⟨k₁, old, rfl⟩ := modify_record at_y
        by_cases here : x.slot = y
        · rw [if_pos here] at waits
          split at waits
          · cases waits
          · rename_i other
            exact other waits
        · rw [if_neg here] at waits
          exact here (sole y k₁ old waits).symm
      rcases landed with rfl | rfl
      · obtain ⟨carrier', post'⟩ := h.carries carrier next moved nofun ⟨rfl, nofun⟩
        exact .queues carrier' post' rfl duty' (barren' nofun) unlisted
      · obtain ⟨carrier', post'⟩ := h.carries carrier next moved nofun ⟨rfl, nofun⟩
        exact .compiles [] carrier' post' rfl duty' unlisted
  · -- it has only begun
    obtain rfl : fs = [] := none
    obtain rfl : s = .start (.background x) := begins
    obtain rfl : x = r := Option.some.inj carries.request
    obtain ⟨k', found', pending', same⟩ := h.flight.sane.apply_waits .tick found pending
      (fun u gs doc text _ running => by cases h.running.symm.trans running)
      (fun y gs val _ running => by cases h.running.symm.trans running)
    have carries' : l.post.Carries x ∧ l.post.IsResting := by
      rcases next.begins_rest with rfl | ⟨n, rfl⟩
      · exact ⟨⟨rfl, nofun⟩, .inl ⟨x, List.mem_cons_self⟩⟩
      · exact ⟨⟨rfl, nofun⟩, .inl ⟨x, List.mem_cons_self⟩⟩
    obtain ⟨carrier', post'⟩ := h.carries carrier next moved nofun carries'.1
    exact .awaits found' pending' (same.trans newest) carrier' post' carries'.2 duty' (barren' nofun)

/-- A task that has the lock is through with an edit that is out of date, and starts no process for it; else it has the
text compiled. -/
theorem Strides.queues (h : Strides ms b w t [.queueing r] s) {ms' : List Mark} (carrier : w.Carrier t r)
    (duty : w.HasDuty t (.edit r.slot)) (barren : w.Barren t) (unlisted : w.Unlisted t) :
    Conduct ms' w.tick t r (exitsOf w.exits t) := by
  obtain ⟨l, next, moved⟩ := h.contained.lands h.flight h.running
  have calm := (carrier.carries.unharmed.running _ s h.running).2
  obtain ⟨-, rfl | ⟨⟨val, rfl⟩, -⟩⟩ := (h.flight.stage (h.flight.post?_running h.running)).at_queueing
  · exact absurd rfl calm
  have unlisted' : w.tick.Unlisted t := unlisted.apply h.flight.sane (h.flight.there h.running) .tick
  rcases next.ends_queue with ⟨stale, rfl⟩ | ⟨current, rfl⟩
  · have barren' : w.tick.Barren t := barren.apply h.flight .tick fun fs text running => by
      cases h.running.symm.trans running
    have taken : w.exits = [(t, .superseded)] := by simp [exits, h.running, stale]
    rw [taken, exitsOf_self]
    have now : w.tick.current = some (t, [], .value .unit) := (tick_running h.running).symm ▸ moved.current
    exact .leaves (.through now trivial) barren' unlisted' (.inr rfl)
  · have taken : w.exits = [] := by simp [exits, h.running, current]
    obtain ⟨carrier', post'⟩ := h.carries carrier next moved nofun ⟨rfl, nofun⟩
    have duty' : w.tick.HasDuty t (.edit r.slot) := (tick_running h.running).symm ▸ moved.hasDuty duty
    rw [taken]
    exact .compiles [] carrier' post' rfl duty' unlisted'

/-- A task that has the text compiled goes on with that until it has the answer, and then is through with the edit. -/
theorem Strides.compiles {pre : List Frame} (h : Strides ms b w t (pre ++ [.holding r]) s) (carrier : w.Carrier t r)
    (duty : w.HasDuty t (.edit r.slot)) (unlisted : w.Unlisted t) :
    Conduct (ms ++ w.marks .tick) w.tick t r (exitsOf w.exits t) := by
  obtain ⟨l, next, moved⟩ := h.contained.lands h.flight h.running
  have unlisted' : w.tick.Unlisted t := unlisted.apply h.flight.sane (h.flight.there h.running) .tick
  have stage := h.flight.stage (h.flight.post?_running h.running)
  obtain ⟨q, post, carries⟩ := carrier.carries.post
  obtain rfl := Option.some.inj (post.symm.trans (h.flight.post?_running h.running))
  have calm := (carrier.carries.unharmed.running _ s h.running).2
  have flight' : Flight (ms ++ w.marks .tick) b w.tick := h.flight.apply (i := .tick) trivial
  by_cases answered : pre = [] ∧ ∃ o, s = answerSignal o
  · obtain ⟨rfl, o, rfl⟩ := answered
    obtain ⟨gs, rfl, plain⟩ := next.ends_compile
    obtain ⟨-, time, started⟩ := h.flight.answered h.running
    have now : w.tick.current = some (t, gs ++ [], .value .unit) := (tick_running h.running).symm ▸ moved.current
    have retired : Post.IsRetired ⟨gs ++ [], .value .unit, .running⟩ :=
      Post.isRetired_plain (by simpa using plain) nofun
    rw [exits_answered h.running, exitsOf_self]
    refine .through (flight'.post?_running now) retired ⟨time, List.mem_append_left _ started⟩ unlisted' ?_
    split
    · exact .inr rfl
    · exact .inl rfl
  · have starts : pre = [] → ¬ s.IsEnd := by
      rintro rfl ends
      rcases stage.at_holding.2.2 with ⟨rfl, -⟩ | compiles
      · exact ends
      · cases compiles with
        | answered o => exact answered ⟨rfl, .ok o, rfl⟩
        | crashed e => exact answered ⟨rfl, .error e, rfl⟩
        | cancelled => exact calm rfl
    have taken : exitsOf w.exits t = [] := by
      refine unlisted.no_exit (fun r' fs v running => ?_) (fun r' fs o running => ?_) .tick
      · obtain ⟨-, frames, rfl⟩ : t = t ∧ pre ++ [.holding r] = .queueing r' :: fs ∧ s = .value v := by
          simpa using h.running.symm.trans running
        rw [frames] at stage
        obtain ⟨rfl, -⟩ := stage.at_queueing
        simpa using congrArg List.getLast? frames
      · obtain ⟨-, frames, rfl⟩ : t = t ∧ pre ++ [.holding r] = .holding r' :: fs ∧ s = answerSignal o := by
          simpa using h.running.symm.trans running
        rw [frames] at stage
        obtain ⟨rfl, -⟩ := stage.at_holding
        exact answered ⟨by simpa using congrArg List.length frames, o, rfl⟩
    have above : l.Above [.holding r] := by
      cases pre with
      | nil => exact next.over (starts rfl)
      | cons f gs => exact next.below.trans (List.suffix_append _ _)
    have carries' : l.post.Carries r := by
      refine (next.carries stage carries calm ?_).resolve_left fun ⟨alone, o, eq⟩ => answered ⟨by simpa using alone, o, eq⟩
      rintro (alone | alone)
      · simpa using congrArg List.getLast? alone
      · simpa using congrArg List.getLast? alone
    obtain ⟨pre', frames⟩ := above.frames
    have noClose : ∀ doc, s ≠ .start (.close doc) := by
      rintro doc rfl
      cases stage.at_start (.close doc) (by simp) (.holding r) (List.mem_append_right _ List.mem_cons_self)
    obtain ⟨carrier', post'⟩ := h.carries carrier next moved noClose carries'
    have duty' : w.tick.HasDuty t (.edit r.slot) := (tick_running h.running).symm ▸ moved.hasDuty duty
    rw [taken]
    exact .compiles pre' carrier' post' (l.post_frames.trans frames) duty' unlisted'

/-! ### Everybody's steps -/

/-- What holds of the whole state as the tasks of the edits go their ways. -/
structure Allows (ms : List Mark) (b : Bench) (w : World) (i : Input) : Prop where
  flight : Flight ms b w
  tame : w.Tame
  expects : w.Expects
  allowed : i.IsPublic
  calm : ∀ u, i ≠ .cancel u
  spares : i = .tick → w.SparesSlots

theorem Allows.contained (h : Allows ms b w i) (tick : i = .tick) : w.Contained :=
  h.tame.contained h.flight h.expects (h.spares tick)

theorem Allows.strides (h : Allows ms b w .tick) (running : w.current = some (t, fs, s)) : Strides ms b w t fs s :=
  ⟨h.flight, h.tame, h.contained rfl, running, h.tame.unstruck h.flight h.expects (h.spares rfl) running⟩

/-- A task that waits for quiet gives way to a newer edit. -/
theorem Allows.abandons (h : Allows ms b w .tick) (found : w.records[r.slot]? = some k) (pending : k.pending = some t)
    (carrier : w.Carrier t r) (post : w.post? t = some q) (resting : q.IsResting) (barren : w.Barren t)
    (sole : ∀ (y : SlotId) k, w.records[y]? = some k → k.pending = some t → y = r.slot) {doc : DocId} {text : String}
    (running : w.current = some (u, fs, .start (.edit doc text))) (registered : w.slotOf? doc = some r.slot)
    {ms' : List Mark} :
    Conduct ms' w.tick t r (exitsOf w.exits t) := by
  have waits : w.waiter? doc = some t := by
    rw [records_getElem?] at found
    obtain ⟨j, at_slot, rfl⟩ := Option.map_eq_some_iff.1 found
    have pending : j.pending = some t := pending
    simp [waiter?, registered, at_slot, pending, carrier.carries.out h.flight]
  have taken : w.exits = [(t, .abandoned)] := by simp [exits, running, waits]
  have barren' : w.tick.Barren t := barren.apply h.flight .tick fun gs text' running' => by
    cases running.symm.trans running'
  have late : (w.editBegun doc text).worker ≠ some t := by
    obtain ⟨j, at_t, -⟩ := carrier.carries.unharmed.task
    simp only [editBegun, workerFor]
    split
    · split
      · rintro ⟨rfl⟩
        exact Nat.lt_irrefl _ (List.getElem?_eq_some_iff.1 at_t).1
      · simp
    · simp
  have here : (w.editBegun doc text).slot = r.slot := by simp [editBegun, ensureSlot_of_some registered]
  have unlisted : w.tick.Unlisted t := by
    intro y k' at_y waits'
    have old : ∀ {j : Slot}, w.records[y]? = some j → j.Later k' → False := by
      intro j at_y' later
      obtain rfl := sole y j at_y' (later.pending t waits')
      obtain ⟨k'', at_slot, worker, -⟩ := h.flight.sane.edit_books running
      rw [here] at at_slot
      obtain rfl := Option.some.inj (at_slot.symm.trans at_y)
      exact late (worker.symm.trans waits')
    cases h.flight.sane.apply_revised .tick at_y with
    | kept at_y' later => exact old at_y' later
    | settled _ _ _ at_y' later => exact old at_y' later
    | edited _ running' _ _ _ worker =>
      cases running.symm.trans running'
      exact late (worker t waits')
  rw [taken, exitsOf_self]
  exact .leaves (h.flight.edit_interrupts running waits post resting) barren' unlisted (.inl rfl)

/-- A task that waits for quiet goes on to do so until the quiet time is over, unless a newer edit comes. -/
theorem Allows.awaits (h : Allows ms b w i) (found : w.records[r.slot]? = some k) (isOpen : k.isOpen = true)
    (pending : k.pending = some t) (newest : k.generation = r.generation) (carrier : w.Carrier t r)
    (post : w.post? t = some q) (resting : q.IsResting) (duty : w.HasDuty t (.edit r.slot)) (barren : w.Barren t)
    (sole : ∀ (y : SlotId) k, w.records[y]? = some k → k.pending = some t → y = r.slot) :
    Conduct (ms ++ w.marks i) (w.apply i) t r (exitsOf (w.exitsOn i) t) := by
  by_cases edited : i = .tick ∧ ∃ u fs doc text, w.current = some (u, fs, .start (.edit doc text)) ∧
      w.slotOf? doc = some r.slot
  · -- a newer edit has come
    obtain ⟨rfl, u, fs, doc, text, running, registered⟩ := edited
    exact h.abandons found pending carrier post resting barren sole running registered
  by_cases steps : w.Steps i t
  · obtain ⟨rfl, fs, s, running⟩ := steps
    obtain rfl := Option.some.inj (post.symm.trans (h.flight.post?_running running))
    have taken : w.exits = [] := by
      rcases (h.flight.stage post).resting resting with ⟨⟨x, quiet⟩, alarm | ⟨calm, -⟩⟩ | ⟨none, ⟨x, begins⟩, -⟩
      · cases alarm
      · obtain rfl : fs = [.quiet x] := quiet
        cases s with
        | start | fault => exact calm.elim
        | value | cancelled => simp [exits, running]
      · obtain rfl : s = .start (.background x) := begins
        simp [exits, running]
    rw [show w.exitsOn .tick = w.exits from rfl, taken]
    exact (h.strides running).awaits found isOpen pending newest carrier resting duty barren sole
  · have apart : ∀ u fs doc text y j, i = .tick → w.current = some (u, fs, .start (.edit doc text)) →
        w.slotOf? doc = some y → w.records[y]? = some j → j.pending ≠ some t := by
      intro u fs doc text y j tick running registered at_y waits
      exact edited ⟨tick, u, fs, doc, text, running, registered.trans (congrArg some (sole y j at_y waits))⟩
    have taken : exitsOf (w.exitsOn i) t = [] := by
      refine exitsOf_nil fun e mem => ?_
      obtain ⟨rfl, mem⟩ := mem_exitsOn mem
      rcases mem_exits mem with ⟨-, u, fs, doc, text, x, k, running, registered, at_x, waits⟩ | ⟨r, fs, v, running, -⟩ |
        ⟨r, fs, o, running, -⟩
      · exact apart u fs doc text x k rfl running registered at_x waits
      · exact steps ⟨rfl, _, _, running⟩
      · exact steps ⟨rfl, _, _, running⟩
    have unstruck : i = .tick → ¬ w.Strikes t := by
      rintro tick strikes
      rcases strikes_cases (h.spares tick) strikes with ⟨u, fs, doc, text, x, k, running, registered, at_x, waits⟩ |
        ⟨u, p, fs, s, running⟩
      · exact apart u fs doc text x k tick running registered at_x waits
      · cases duty.unique (h.tame.attended.limiting u _ s p t running List.mem_cons_self)
    obtain ⟨carrier', q', post', frames⟩ :=
      h.tame.bystands h.flight h.allowed h.calm h.contained h.spares h.expects carrier post steps unstruck
    obtain ⟨k', found', pending', same⟩ := h.flight.sane.apply_waits i found pending
      (fun u fs doc text tick running here => by
        cases registered : w.slotOf? doc with
        | some y =>
          have at_y : y = r.slot := by simpa [editBegun, ensureSlot_of_some registered] using here
          exact edited ⟨tick, u, fs, doc, text, running, at_y ▸ registered⟩
        | none =>
          have new : w.slots.length = r.slot := by simpa [editBegun, ensureSlot_of_none registered] using here
          have there := (List.getElem?_eq_some_iff.1 found).1
          rw [← new] at there
          simp [records] at there)
      (fun x fs v tick running => steps ⟨tick, _, _, running⟩)
    obtain ⟨q₁, post₁, carries'⟩ := carrier'.carries.post
    obtain rfl := Option.some.inj (post₁.symm.trans post')
    rw [taken]
    exact .awaits found' pending' (same.trans newest) carrier' post₁ (carries'.resting frames resting)
      (duty.apply h.flight h.contained h.calm)
      (barren.apply h.flight i fun fs text => h.flight.rests_still post resting (by simp))

/-- A task that is not registered to wait for quiet and takes no step goes on as before. -/
theorem Allows.bystands (h : Allows ms b w i) (carrier : w.Carrier t r) (post : w.post? t = some q)
    (duty : w.HasDuty t (.edit r.slot)) (unlisted : w.Unlisted t) (steps : ¬ w.Steps i t) :
    (w.apply i).Carrier t r ∧ (∃ q', (w.apply i).post? t = some q' ∧ q'.frames = q.frames) ∧
      (w.apply i).HasDuty t (.edit r.slot) ∧ (w.apply i).Unlisted t ∧ exitsOf (w.exitsOn i) t = [] := by
  obtain ⟨carrier', post'⟩ :=
    h.tame.bystands h.flight h.allowed h.calm h.contained h.spares h.expects carrier post steps
    fun tick => unlisted.unstruck h.tame (h.spares tick) duty
  obtain ⟨j, at_t, -⟩ := carrier.carries.unharmed.task
  have there := (List.getElem?_eq_some_iff.1 at_t).1
  refine ⟨carrier', post', duty.apply h.flight h.contained h.calm, unlisted.apply h.flight.sane there i, ?_⟩
  refine exitsOf_nil fun e mem => ?_
  obtain ⟨rfl, mem⟩ := mem_exitsOn mem
  rcases mem_exits mem with ⟨-, u, fs, doc, text, x, k, -, -, at_x, waits⟩ | ⟨r, fs, v, running, -⟩ | ⟨r, fs, o, running, -⟩
  · exact unlisted x k at_x waits
  · exact steps ⟨rfl, _, _, running⟩
  · exact steps ⟨rfl, _, _, running⟩

/-- Every task of an edit goes on its way, as long as its slot is open. -/
theorem Conduct.apply {es : List Exit} (conduct : Conduct ms w t r es) (h : Allows ms b w i)
    (there : t < w.tasks.length)
    (isOpen : ∀ k, w.records[r.slot]? = some k → k.isOpen = true)
    (sole : ∀ (y : SlotId) k, w.records[y]? = some k → k.pending = some t → y = r.slot) :
    Conduct (ms ++ w.marks i) (w.apply i) t r (es ++ exitsOf (w.exitsOn i) t) := by
  cases conduct with
  | awaits found pending newest carrier post resting duty barren =>
    exact h.awaits found (isOpen _ found) pending newest carrier post resting duty barren sole
  | @queues q carrier post frames duty barren unlisted =>
    by_cases steps : w.Steps i t
    · obtain ⟨rfl, fs, s, running⟩ := steps
      obtain rfl := Option.some.inj (post.symm.trans (h.flight.post?_running running))
      obtain rfl : fs = [.queueing r] := frames
      exact (h.strides running).queues carrier duty barren unlisted
    · obtain ⟨carrier', ⟨q', post', same⟩, duty', unlisted', taken⟩ := h.bystands carrier post duty unlisted steps
      have idle : ∀ fs text, w.current ≠ some (t, fs, .start (.compile text)) := by
        intro fs text running
        obtain rfl := Option.some.inj (post.symm.trans (h.flight.post?_running running))
        obtain rfl : fs = [.queueing r] := frames
        rcases (h.flight.stage post).at_queueing.2 with eq | ⟨⟨v, eq⟩, -⟩
        · cases eq
        · cases eq
      rw [taken]
      exact .queues carrier' post' (same.trans frames) duty' (barren.apply h.flight i idle) unlisted'
  | compiles pre carrier post frames duty unlisted =>
    by_cases steps : w.Steps i t
    · obtain ⟨rfl, fs, s, running⟩ := steps
      obtain rfl := Option.some.inj (post.symm.trans (h.flight.post?_running running))
      obtain rfl : fs = pre ++ [.holding r] := frames
      exact (h.strides running).compiles carrier duty unlisted
    · obtain ⟨carrier', ⟨q', post', same⟩, duty', unlisted', taken⟩ := h.bystands carrier post duty unlisted steps
      rw [taken]
      exact .compiles pre carrier' post' (same.trans frames) duty' unlisted'
  | @leaves x doomed barren unlisted early =>
    have taken : exitsOf (w.exitsOn i) t = [] :=
      unlisted.no_exit (fun x fs v running => by simpa using doomed.running h.flight running)
        (fun x fs o running => by simpa using doomed.running h.flight running) i
    rw [taken, List.append_nil]
    exact .leaves (doomed.apply h.flight h.allowed) (barren.apply h.flight i fun fs text => doomed.idle h.flight fs text)
      (unlisted.apply h.flight.sane there i) early
  | @through q x post retired started unlisted late =>
    have plain : ∀ fs s, w.current = some (t, fs, s) → Plain fs := by
      intro fs s running
      obtain rfl := Option.some.inj (post.symm.trans (h.flight.post?_running running))
      rcases (h.flight.stage post).retired retired with ended | ⟨plain, -⟩
      · cases ended
      · exact plain
    have taken : exitsOf (w.exitsOn i) t = [] := by
      refine unlisted.no_exit (fun x fs v running => ?_) (fun x fs o running => ?_) i
      · cases plain _ _ running _ List.mem_cons_self
      · cases plain _ _ running _ List.mem_cons_self
    obtain ⟨q', post', retired'⟩ := h.flight.apply_retired h.allowed post retired
    obtain ⟨time, started⟩ := started
    rw [taken, List.append_nil]
    exact .through post' retired' ⟨time, List.mem_append_left _ started⟩ (unlisted.apply h.flight.sane there i) late

/-! ### The whole state -/

namespace Conducted

theorem sole (h : Conducted ms w xs) (booked : Booked ms w) (mine : Mine ms t r) (y : SlotId) (k : Slot)
    (found : w.records[y]? = some k) (pending : k.pending = some t) : y = r.slot := by
  obtain ⟨r', mine', rfl⟩ := h.listed y k t found pending
  rw [booked.request_unique mine mine']

theorem expects (h : Conducted ms w xs) : w.Expects := by
  intro x k u found pending
  obtain ⟨r, mine, rfl⟩ := h.listed x k u found pending
  have conduct := h.conduct u r mine
  generalize exitsOf xs u = es at conduct
  cases conduct with
  | awaits _ _ _ _ post resting duty => exact ⟨duty, _, post, resting⟩
  | queues _ _ _ _ _ unlisted => exact absurd pending (unlisted _ k found)
  | compiles _ _ _ _ _ unlisted => exact absurd pending (unlisted _ k found)
  | leaves _ _ unlisted => exact absurd pending (unlisted _ k found)
  | through _ _ _ unlisted => exact absurd pending (unlisted _ k found)

theorem allows (h : Conducted ms w xs) (flight : Flight ms b w) (allowed : i.IsPublic) (calm : ∀ u, i ≠ .cancel u)
    (unshut : ∀ x, ¬ (w.apply i).IsShut x) : Allows ms b w i := by
  refine ⟨flight, h.tame, h.expects, allowed, calm, ?_⟩
  rintro rfl
  exact flight.sane.spares_slots unshut

theorem exits_mine (h : Conducted ms w xs) (flight : Flight ms b w) (taken : (t, e) ∈ w.exitsOn i) :
    ∃ r, Mine ms t r := by
  obtain ⟨-, mem⟩ := mem_exitsOn taken
  rcases mem_exits mem with ⟨-, u, fs, doc, text, x, k, -, -, found, pending⟩ | ⟨r, fs, v, running, -⟩ | ⟨r, fs, o, running, -⟩
  · obtain ⟨r, mine, -⟩ := h.listed x k t found pending
    exact ⟨r, mine⟩
  · rcases (flight.stage (flight.post?_running running)).at_queueing.2 with eq | ⟨-, mine, -⟩
    · cases eq
    · exact ⟨r, mine⟩
  · exact ⟨r, (flight.stage (flight.post?_running running)).at_holding.2.1⟩

/-- The task of an edit that has just begun waits for quiet. -/
theorem begins (h : Conducted ms w xs) (flight : Flight ms b w) (launchers : w.Launchers) {name text : String}
    (running : w.current = some (u, fs, .start (.edit (.name name) text)))
    (worker : (w.editBegun (.name name) text).worker = some t) {ms' : List Mark} :
    Conduct ms' w.tick t ⟨(w.editBegun (.name name) text).slot, name, (w.editBegun (.name name) text).generation, text⟩
      (exitsOf (xs ++ w.exitsOn .tick) t) := by
  have new : w.tasks.length = t := by
    simp only [editBegun, workerFor] at worker
    split at worker
    · exact Option.some.inj worker
    · cases worker
  have late : ∀ r, ¬ Mine ms t r := by
    rintro r ⟨e, edit, own, -⟩
    have there := flight.booked.known.workers e t edit own
    omega
  have taken : exitsOf (xs ++ w.exitsOn .tick) t = [] := by
    refine exitsOf_nil fun e mem => ?_
    rcases List.mem_append.1 mem with old | now
    · obtain ⟨r, mine⟩ := h.taken t e old
      exact late r mine
    · obtain ⟨r, mine⟩ := h.exits_mine flight now
      exact late r mine
  have carrier := flight.edit_carried running worker
  obtain ⟨k, found, pending, generation, -⟩ := flight.sane.edit_books running
  have task : w.tick.tasks[t]? = _ :=
    (congrArg (fun v : World => v.tasks[t]?) (tick_running running)).trans (beginEdit_hired worker)
  have idle : ∀ gs s, w.tick.current ≠ some (t, gs, s) := by
    intro gs s now
    have next : Flight (ms ++ w.marks .tick) b w.tick := flight.apply (i := .tick) trivial
    exact next.steady.midst.agrees.other task (by simp) t gs s now rfl
  have post : w.tick.post? t = _ := (post?_other idle).trans (congrArg (Option.map Task.post) task)
  have barren : w.tick.Barren t := by
    intro p mem own
    obtain ⟨n, at_n⟩ := List.mem_iff_getElem?.1 mem
    rcases (flight.apply_bred .tick).1.process n p at_n with ⟨p', old, same, -⟩ | ⟨-, gs, text', running'⟩
    · obtain ⟨q, at_owner, -⟩ := launchers p' (List.mem_of_getElem? old)
      have there := flight.post?_there at_owner
      rw [← same, own, new] at there
      exact Nat.lt_irrefl _ there
    · cases running.symm.trans running'
  rw [taken]
  exact .awaits found (pending.trans worker) generation carrier post (.inr ⟨rfl, by simp [Task.post], _, rfl⟩) ⟨_, task, rfl⟩ barren

/-- Whatever happens, as long as nobody from outside cancels a task and no document is closed, every task of an edit
goes its way. -/
theorem apply (h : Conducted ms w xs) (flight : Flight ms b w) (launchers : w.Launchers) (allowed : i.IsPublic)
    (calm : ∀ u, i ≠ .cancel u) (unshut : ∀ x, ¬ (w.apply i).IsShut x) :
    Conducted (ms ++ w.marks i) (w.apply i) (xs ++ w.exitsOn i) := by
  have allows := h.allows flight allowed calm unshut
  have open_before : ∀ (x : SlotId) k, w.records[x]? = some k → k.isOpen = true := by
    intro x k found
    refine Bool.not_eq_false _ |>.mp fun shut => unshut x ?_
    exact IsShut.mono ⟨k.seat, seat_of_record found, shut⟩ (flight.sane.apply allowed).ages
  refine ⟨h.tame.apply flight allowed calm fun tick => ⟨allows.expects, allows.spares tick⟩, fun t r mine => ?_,
    fun x k' t found pending => ?_, fun t e mem => ?_⟩
  · obtain ⟨e, edit, worker, slot, doc, generation, text⟩ := mine
    rcases List.mem_append.1 edit with old | now
    · have mine : Mine ms t r := ⟨e, old, worker, slot, doc, generation, text⟩
      rw [exitsOf_append]
      exact (h.conduct t r mine).apply allows (flight.booked.known.workers e t old worker) (fun k => open_before _ k)
        (h.sole flight.booked mine)
    · cases i with
      | tick =>
        obtain ⟨u, fs, doc', text', running, rfl⟩ := mark?_edited (Option.mem_toList.1 now)
        obtain ⟨slot', name, number, s⟩ := r
        obtain rfl : doc' = .name name := doc
        cases slot
        cases generation
        cases text
        exact h.begins flight launchers running worker
      | _ => cases now
  · cases flight.sane.apply_revised i found with
    | kept at_x later =>
      obtain ⟨r, mine, slot⟩ := h.listed x _ t at_x (later.pending t pending)
      exact ⟨r, mine_more mine, slot⟩
    | settled _ _ _ at_x later =>
      obtain ⟨r, mine, slot⟩ := h.listed x _ t at_x (later.pending t pending)
      exact ⟨r, mine_more mine, slot⟩
    | @edited u fs doc text tick running here _ _ waits =>
      subst tick
      have worker := waits t pending
      cases doc with
      | name name =>
        refine ⟨⟨x, name, (w.editBegun (.name name) text).generation, text⟩, ⟨w.editBegun (.name name) text, ?_, worker,
          here, rfl, rfl, rfl⟩, rfl⟩
        simp [marks, mark?, running]
      | number | truth => cases worker
  · rcases List.mem_append.1 mem with old | now
    · obtain ⟨r, mine⟩ := h.taken t e old
      exact ⟨r, mine_more mine⟩
    · obtain ⟨r, mine⟩ := h.exits_mine flight now
      exact ⟨r, mine_more mine⟩

end Conducted

theorem IsNew.conducted (new : w.IsNew) : Conducted [] w [] where
  tame := new.tame
  conduct t r mine := by
    obtain ⟨e, edit, -⟩ := mine
    cases edit
  listed x k t found := by simp [records, new.slots] at found
  taken t e mem := by cases mem

end
end World
end InkPreview.Live
