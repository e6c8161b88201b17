import InkPreview.Proofs.Live.Moves
import InkPreview.Proofs.Live.Seats
/-!
What one step does, said once. The running task does its deeds, each of which leaves the frames of
every other task alone, and then lands. `Next` lists the landings with what the step has written
into the slots; the locks are left out, they have modules of their own. Main statement:
`move_reaches`.
-/
namespace InkPreview.Live

/-- A slot but for its lock. -/
def Slot.unlocked (k : Slot) : Slot := { k with lock := .free }

/-- What the compiler has answered, as the update that comes of it shows it. -/
def answerMode : Except Fault Outcome → Mode
  | .ok (.success story) => .compiled story
  | .ok (.failed _ m) => .compilerError m
  | .error f => .compilerError f.message

def answerSignal : Except Fault Outcome → Signal
  | .ok o => .value (.outcome o)
  | .error f => .fault f

theorem Lock.head_of_next {l : Lock} {t : TaskId} (next : l.next? = some t) : l.queue.head? = some (t, .waiting) := by
  unfold Lock.next? at next
  split at next
  · rename_i queue
    obtain rfl := Option.some.inj next
    rw [queue]
    rfl
  · cases next

theorem answerSignal_inj {o o' : Except Fault Outcome} (h : answerSignal o = answerSignal o') : o = o' := by
  cases o <;> cases o' <;> simp_all [answerSignal]

theorem answerSignal_end (o : Except Fault Outcome) : (answerSignal o).IsEnd := by
  cases o <;> trivial

/-- What an edit shows at once. -/
def firstMode (text : String) : Mode := (classify text).getD .pending

/-- An operation that begins may be asked for, or is the work behind an edit. -/
def Signal.IsLicit : Signal → Prop
  | .start op => op.IsGiven ∨ ∃ r, op = .background r
  | _ => True

/-- The update of an edit. -/
structure Update.IsFor (u : Update) (s : SlotId) (doc : String) (generation : Nat) (mode : Mode) :
    Prop where
  slot : u.slot = s
  doc : u.doc = doc
  generation : u.generation = generation
  mode : u.mode = mode

namespace World

def records (w : World) : List Slot := w.slots.map Slot.unlocked

section
variable {w v : World}

@[simp] theorem records_getElem? (w : World) (s : SlotId) :
    w.records[s]? = w.slots[s]?.map Slot.unlocked := List.getElem?_map

/-! ### What leaves the records alone -/

theorem records_modifySlot {f g : Slot → Slot} (s : SlotId)
    (same : ∀ k, (f k).unlocked = g k.unlocked) :
    (w.modifySlot s f).records = w.records.modify s g := by
  refine List.ext_getElem? fun i => ?_
  rw [records_getElem?, List.getElem?_modify, records_getElem?, modifySlot, List.getElem?_modify]
  cases w.slots[i]? with
  | none => rfl
  | some k =>
    by_cases here : s = i
    · simp [here, same]
    · simp [here]

theorem modify_id (ks : List Slot) (s : SlotId) : ks.modify s id = ks := by
  refine List.ext_getElem? fun i => ?_
  rw [List.getElem?_modify]
  cases ks[i]? with
  | none => rfl
  | some k => by_cases here : s = i <;> simp [here]

/-- Locks are not recorded. -/
theorem records_lock {f : Slot → Slot} (s : SlotId) (same : ∀ k, (f k).unlocked = k.unlocked) :
    (w.modifySlot s f).records = w.records :=
  (records_modifySlot (g := id) s same).trans (modify_id _ s)

theorem Alike.records (h : w.Alike v) : v.records = w.records := congrArg (List.map Slot.unlocked) h.slots

theorem Nudges.records {H : TaskId → Prop} (h : Nudges H w v) : v.records = w.records := by
  refine h.keep (P := fun x => x.records = w.records) (fun x y same step => ?_) rfl
  rcases step.slots with eq | ⟨s, t, -, marked⟩
  · exact (congrArg (List.map Slot.unlocked) eq).trans same
  · rw [World.records, marked]
    exact (records_lock (w := x) (f := fun k => { k with lock := k.lock.mark t .cancelled }) s
      fun _ => rfl).trans same

theorem records_cancel (t : TaskId) : (w.cancel t).records = w.records := (cancel_nudges w t).records

theorem Aside.records {t : TaskId} (h : Aside t w v) : v.records = w.records := by
  cases h with
  | alike h => exact h.records
  | stop | forestall => exact records_cancel _
  | @enroll members _ =>
    obtain ⟨ks, js, eq, -⟩ := enroll_eq w t members
    rw [eq]
    rfl
  | files | call | process | launch | spawn | follow => rfl

theorem asides_records {t : TaskId} (h : Relation.ReflTransGen (Aside t) w v) :
    v.records = w.records := by
  induction h with
  | refl => rfl
  | tail _ step ih => exact step.records.trans ih

theorem records_callNext (s : SlotId) : (w.callNext s).records = w.records := by
  unfold callNext
  split
  · exact records_lock s fun _ => rfl
  · rfl

theorem records_setHeld (s : SlotId) (held : Bool) : (w.setHeld s held).records = w.records :=
  records_lock s fun _ => rfl

theorem records_release (s : SlotId) : (w.release s).records = w.records :=
  (records_callNext s).trans (records_setHeld s false)

theorem records_leaveQueue (s : SlotId) (t : TaskId) : (w.leaveQueue s t).records = w.records :=
  records_lock s fun _ => rfl

theorem records_land (t : TaskId) (l : Landing) : (w.land t l).records = w.records :=
  land_same Nudges.records (fun _ _ _ _ _ => rfl) w t l

theorem seats_of_records {ks : List Slot} (h : v.records = ks) : v.seats = ks.map Slot.seat := by
  rw [← h, records, List.map_map]
  rfl

theorem isCurrent_records (h : v.records = w.records) (s : SlotId) (g : Nat) :
    v.isCurrent s g = w.isCurrent s g := by
  refine isCurrent_seats ?_ s g
  rw [seats_of_records h, ← seats_of_records rfl]

end

/-! ### Deeds -/

/-- The tasks that a step cancels: the one that waits for quiet, as a newer edit comes, and all the
tasks of a slot that is closed. -/
inductive Drops (w : World) : TaskId → Prop
  | pending {t : TaskId} {fs : List Frame} {doc : DocId} {text : String} {s : SlotId} {k : Slot}
      {u : TaskId} (running : w.current = some (t, fs, .start (.edit doc text)))
      (registered : w.slotOf? doc = some s) (found : w.slots[s]? = some k)
      (pending : k.pending = some u) : Drops w u
  | member {t : TaskId} {fs : List Frame} {doc : DocId} {s : SlotId} {k : Slot} {u : TaskId}
      (running : w.current = some (t, fs, .start (.close doc)))
      (registered : w.slotOf? doc = some s) (found : w.slots[s]? = some k)
      (member : u ∈ k.tasks) : Drops w u

/-- The request that the text of an edit becomes. -/
def Hires (w : World) (r : Request) : Prop :=
  ∃ t fs name, w.current = some (t, fs, .start (.edit (.name name) r.text)) ∧
    needsCompile r.text = true ∧
    r = ⟨(w.editBegun (.name name) r.text).slot, name, (w.editBegun (.name name) r.text).generation, r.text⟩

/-- The slots that a step of the running task may write to: that of the document it edits or closes, and that of the
request whose turn it is. -/
inductive Touches (now : World) : SlotId → Prop
  | edits {t : TaskId} {fs : List Frame} {doc : DocId} {text : String}
      (running : now.current = some (t, fs, .start (.edit doc text))) : Touches now (now.editBegun doc text).slot
  | closes {t : TaskId} {fs : List Frame} {doc : DocId} {s : SlotId}
      (running : now.current = some (t, fs, .start (.close doc))) (registered : now.slotOf? doc = some s) :
      Touches now s
  | requests {t : TaskId} {f : Frame} {fs : List Frame} {s : Signal} {r : Request}
      (running : now.current = some (t, f :: fs, s)) (ends : s.IsEnd) (carries : f.request? = some r) :
      Touches now r.slot

/-- The running task of `now` writes to a slot, or opens one for an edit. -/
inductive Rewrites (now : World) (ks : List Slot) : List Slot → Prop
  | slot {s : SlotId} {f : Slot → Slot} (touches : now.Touches s) (named : ∀ k, (f k).doc = k.doc) :
      Rewrites now ks (ks.modify s f)
  | opens {t : TaskId} {fs : List Frame} {doc : DocId} {text : String}
      (running : now.current = some (t, fs, .start (.edit doc text))) : Rewrites now ks (ks ++ [.new doc])

/-- The task waits in the queue of a lock that a step of the running task may write to. -/
def Queued (w : World) (u : TaskId) : Prop := ∃ s k, w.Touches s ∧ w.slots[s]? = some k ∧ (u, .waiting) ∈ k.lock.queue

/-- A step may write to the slot, and who still waits in the queue of its lock has waited there before the step. -/
structure Lines (now w : World) (u : SlotId) : Prop where
  touches : now.Touches u
  waited : ∀ k, w.slots[u]? = some k → ∀ t, (t, .waiting) ∈ k.lock.queue →
    ∃ k', now.slots[u]? = some k' ∧ (t, .waiting) ∈ k'.lock.queue

/-- The running task of `now` may have a page of the document shown: it is about to edit the document,
or has the answer for an edit that still counts. -/
inductive Shows (now : World) (doc : String) : Prop
  | edit {t : TaskId} {fs : List Frame} {text : String}
      (running : now.current = some (t, fs, .start (.edit (.name doc) text)))
  | answer {t : TaskId} {fs : List Frame} {o : Except Fault Outcome} {r : Request}
      (running : now.current = some (t, .holding r :: fs, answerSignal o)) (same : r.doc = doc)
      (current : now.isCurrent r.slot r.generation = true)

/-- The running task is about to edit or to close a document. -/
def Reseats (now : World) : Prop :=
  ∃ t fs op, now.current = some (t, fs, .start op) ∧ ((∃ doc text, op = .edit doc text) ∨ ∃ doc, op = .close doc)

/-- One thing the running task of `now` does before it lands. -/
inductive Deed (now : World) : World → World → Prop
  | aside {w v : World} {t : TaskId} (h : Aside t w v) : Deed now w v
  | slots (w : World) {ks : List Slot} (h : now.Rewrites w.slots ks) : Deed now w { w with slots := ks }
  | gauge (w : World) (metrics : Metrics) (h : now.Reseats) : Deed now w { w with metrics }
  | render (w : World) {doc : String} (mode : Mode) (h : now.Shows doc) :
      Deed now w { w with gallery := (w.gallery.render doc mode).2.2 }
  | discard (w : World) {doc : String} {t : TaskId} {fs : List Frame}
      (running : now.current = some (t, fs, .start (.close (.name doc)))) :
      Deed now w { w with gallery := w.gallery.discard doc }
  | call (w : World) {u : TaskId} (h : now.Queued u) : Deed now w (w.wake u (.value .unit))
  | hire (w : World) {r : Request} (h : now.Hires r) :
      Deed now w (w.spawn (.background r) fun b => [.forget r.slot b]).2
  | cancel (w : World) {u : TaskId} (h : now.Drops u) : Deed now w (w.cancel u)

def Deeds (now : World) : World → World → Prop := Relation.ReflTransGen (Deed now)

/-! ### Landings -/

/-- Where a step takes the running task `t`, and the records it leaves. -/
inductive Next (w : World) (t : TaskId) : List Frame → Signal → Landing → List Slot → Prop
  | turn {fs : List Frame} {s : Signal} {l : Landing} (aside : IsAside fs s) (h : Turn w fs s l) :
      Next w t fs s l w.records
  | edits {fs : List Frame} {name text : String} {u : Update} {e : Edit}
      (begun : e = w.editBegun (.name name) text)
      (shown : u.IsFor e.slot name e.generation (firstMode text)) :
      Next w t fs (.start (.edit (.name name) text))
        (.go (.notifying u (List.range w.subscribers.length) :: .issued e.generation :: fs) (.value .unit))
        ((w.bumped (.name name)).records.modify e.slot fun k =>
          { k with pending := e.worker, tasks := k.tasks ++ e.worker.toList, lastUpdate := some u })
  | misnamed {fs : List Frame} {doc : DocId} {text : String} {f : Fault}
      (unnamed : ∀ name, doc ≠ .name name) :
      Next w t fs (.start (.edit doc text)) (.go fs (.fault f))
        ((w.bumped doc).records.modify (w.editBegun doc text).slot fun k => { k with pending := none })
  | closes {fs : List Frame} {doc : DocId} {l : Landing} (h : Closes doc fs l) :
      Next w t fs (.start (.close doc)) l (w.removeSlot doc).2.records
  | rests {fs : List Frame} {r : Request} {l : Landing}
      (h : l = .turn (.quiet r :: fs) ∨ ∃ n, l = .timed (.quiet r :: fs) .alarm n) :
      Next w t fs (.start (.background r)) l w.records
  | abandons {fs : List Frame} {r : Request} :
      Next w t (.quiet r :: fs) .cancelled (.go fs (.value .unit)) w.records
  /-- The quiet time is over: the edit is out of date, its task queues up for the lock, or has it. -/
  | quieted {fs : List Frame} {r : Request} {v : Value} {l : Landing}
      (h : w.isCurrent r.slot r.generation = false ∧ l = .go fs (.value .unit) ∨
        w.isCurrent r.slot r.generation = true ∧ (l = .park (.queueing r :: fs) (.lock r.slot) ∨
          l = .go (.holding r :: fs) (.start (.compile r.text)))) :
      Next w t (.quiet r :: fs) (.value v) l (w.records.modify r.slot fun k =>
        if k.pending = some t then { k with pending := none } else k)
  | called {fs : List Frame} {r : Request} {v : Value} {l : Landing}
      (h : w.isCurrent r.slot r.generation = false ∧ l = .go fs (.value .unit) ∨
        w.isCurrent r.slot r.generation = true ∧ l = .go (.holding r :: fs) (.start (.compile r.text))) :
      Next w t (.queueing r :: fs) (.value v) l w.records
  | leaves {fs : List Frame} {r : Request} :
      Next w t (.queueing r :: fs) .cancelled (.go fs .cancelled) w.records
  | settles {fs : List Frame} {r : Request} {s : Signal} {o : Except Fault Outcome} {u : Update}
      (answered : s = answerSignal o) (current : w.isCurrent r.slot r.generation = true)
      (shown : u.IsFor r.slot r.doc r.generation (answerMode o)) :
      Next w t (.holding r :: fs) s
        (.go (.notifying u (List.range w.subscribers.length) :: fs) (.value .unit))
        (w.records.modify r.slot fun k => { k with lastUpdate := some u })
  | drops {fs : List Frame} {r : Request} {s : Signal} (ends : s.IsEnd) (calm : s ≠ .cancelled)
      (h : (∀ o, s ≠ answerSignal o) ∨ w.isCurrent r.slot r.generation = false) :
      Next w t (.holding r :: fs) s (.go fs (.value .unit)) w.records
  | lets {fs : List Frame} {r : Request} :
      Next w t (.holding r :: fs) .cancelled (.go fs .cancelled) w.records
  | breaks {f : Frame} {fs : List Frame} {e : Fault} {r : Request}
      (h : f = .quiet r ∨ f = .queueing r) :
      Next w t (f :: fs) (.fault e) (.go fs (.fault e)) w.records

/-- One step of the running task leads here. -/
def Reaches (w : World) (t : TaskId) (fs : List Frame) (s : Signal) (v : World) : Prop :=
  ∃ x l, w.Deeds w x ∧ Next w t fs s l x.records ∧ v = x.land t l

/-! ### The steps, one by one -/

section
variable {now w v : World} {t : TaskId} {fs : List Frame} {s : Signal} {r : Request}

theorem Lines.self {u : SlotId} (touches : w.Touches u) : w.Lines w u :=
  ⟨touches, fun k found _ waits => ⟨k, found, waits⟩⟩

theorem Lines.of_slots {u : SlotId} (h : now.Lines w u) (same : v.slots = w.slots) : now.Lines v u :=
  ⟨h.touches, fun k found => h.waited k (same ▸ found)⟩

theorem Lines.modifySlot {u : SlotId} (h : now.Lines w u) {f : Slot → Slot}
    (shorter : ∀ k, ∀ p ∈ (f k).lock.queue, p ∈ k.lock.queue) : now.Lines (w.modifySlot u f) u := by
  refine ⟨h.touches, fun k found t waits => ?_⟩
  simp only [World.modifySlot, List.getElem?_modify_eq, Option.map_eq_map, Option.map_eq_some_iff] at found
  obtain ⟨k', found, rfl⟩ := found
  exact h.waited k' found t (shorter k' _ waits)

namespace Deeds

theorem refl : now.Deeds w w := Relation.ReflTransGen.refl

theorem one (h : Deed now w v) : now.Deeds w v := Relation.ReflTransGen.single h

theorem trans {x : World} (h : now.Deeds w v) (h' : now.Deeds v x) : now.Deeds w x :=
  Relation.ReflTransGen.trans h h'

theorem alike (h : w.Alike v) : now.Deeds w v := one (.aside (t := 0) (.alike h))

theorem asides (h : Relation.ReflTransGen (Aside t) w v) : now.Deeds w v := by
  induction h with
  | refl => exact refl
  | tail _ step ih => exact ih.trans (one (.aside step))

theorem slot {u : SlotId} (touches : now.Touches u) {f : Slot → Slot} (named : ∀ k, (f k).doc = k.doc) :
    now.Deeds w (w.modifySlot u f) := one (.slots w (.slot touches named))

theorem callNext {u : SlotId} (lines : now.Lines w u) : now.Deeds w (w.callNext u) := by
  unfold World.callNext
  split
  · rename_i t next
    obtain ⟨k, found, next⟩ := Option.bind_eq_some_iff.1 next
    obtain ⟨k', before, waits⟩ := lines.waited k found t (List.mem_of_head? (Lock.head_of_next next))
    exact (slot lines.touches fun _ => by rfl).trans (one (.call _ ⟨u, k', lines.touches, before, waits⟩))
  · exact refl

theorem release {u : SlotId} (lines : now.Lines w u) : now.Deeds w (w.release u) :=
  (slot lines.touches fun _ => by rfl).trans (callNext (lines.modifySlot fun _ _ => id))

theorem bumped {doc : DocId} {text : String} (running : w.current = some (t, fs, .start (.edit doc text))) :
    w.Deeds w (w.bumped doc) := by
  have ensured : w.Deeds w (w.ensureSlot doc).2 := by
    cases found : w.slotOf? doc with
    | some u =>
      rw [ensureSlot_of_some found]
      exact refl
    | none =>
      rw [ensureSlot_of_none found]
      exact (one (.slots w (.opens running))).trans (one (.gauge _ _ ⟨t, fs, _, running, .inl ⟨doc, text, rfl⟩⟩))
  exact ensured.trans (slot (.edits running) fun _ => by rfl)

theorem abandonPending {u : SlotId} (touches : now.Touches u)
    (drops : ∀ k, w.slots[u]? = some k → ∀ t, k.pending = some t → now.Drops t) :
    now.Deeds w (w.abandonPending u) := by
  have forgotten : now.Deeds w (w.modifySlot u fun k => { k with pending := none }) := slot touches fun _ => by rfl
  unfold World.abandonPending
  dsimp only
  split
  · rename_i t pending
    obtain ⟨k, found, pending⟩ := Option.bind_eq_some_iff.1 pending
    split
    · exact forgotten
    · exact (forgotten.trans (one (.cancel _ (drops k found t pending)))).trans (alike (.count _ _))
  · exact forgotten

theorem cancelAll (ts : List TaskId) (drops : ∀ t ∈ ts, now.Drops t) : now.Deeds w (w.cancelAll ts) :=
  cancelEach_keep (P := now.Deeds w) (fun t mem x deeds => deeds.trans (one (.cancel x (drops t mem)))) refl

end Deeds

theorem records_abandonPending (u : SlotId) :
    (w.abandonPending u).records = w.records.modify u fun k => { k with pending := none } := by
  have forgotten : (w.modifySlot u fun k => { k with pending := none }).records = _ :=
    records_modifySlot (g := fun k => { k with pending := none }) u fun _ => rfl
  unfold abandonPending
  dsimp only
  split
  · split
    · exact forgotten
    · exact (Alike.count _ _).records.trans ((records_cancel _).trans forgotten)
  · exact forgotten

theorem records_startRequest (r : Request) :
    (w.startRequest r).records = w.records.modify r.slot fun k =>
      { k with pending := some w.tasks.length, tasks := k.tasks ++ [w.tasks.length] } :=
  records_modifySlot (w := (w.spawn (.background r) fun b => [.forget r.slot b]).2) r.slot fun _ => rfl

theorem Reaches.land {x : World} {l : Landing} (deeds : w.Deeds w x) (next : Next w t fs s l x.records) :
    w.Reaches t fs s (x.land t l) := ⟨x, l, deeds, next, rfl⟩

theorem bumped_pending {doc : DocId} {text : String} {k : Slot} {u : TaskId}
    (running : w.current = some (t, fs, .start (.edit doc text)))
    (found : (w.bumped doc).slots[(w.editBegun doc text).slot]? = some k) (pending : k.pending = some u) :
    w.Drops u := by
  cases registered : w.slotOf? doc with
  | some s =>
    simp only [World.bumped, editBegun, ensureSlot_of_some registered, modifySlot, List.getElem?_modify_eq,
      Option.map_eq_map, Option.map_eq_some_iff] at found
    obtain ⟨k', found, rfl⟩ := found
    exact .pending running registered found pending
  | none =>
    simp [World.bumped, editBegun, ensureSlot_of_none registered, modifySlot, gaugeDocuments] at found
    obtain rfl := found
    cases pending

theorem Deed.subscribers (h : now.Deed w v) : v.subscribers = w.subscribers := by
  cases h with
  | @aside _ t h =>
    cases h with
    | alike h => exact h.subscribers
    | stop | forestall => exact (cancel_nudges _ _).subscribers
    | @enroll members _ =>
      obtain ⟨ks, js, eq, -⟩ := enroll_eq w t members
      rw [eq]
    | files | call | process | launch | spawn | follow => rfl
  | slots | gauge | render | discard | call | hire => rfl
  | cancel h => exact (cancel_nudges _ _).subscribers

theorem Deeds.subscribers (h : now.Deeds w v) : v.subscribers = w.subscribers := by
  induction h with
  | refl => rfl
  | tail _ step ih => exact step.subscribers.trans ih

variable (now) in
/-- An update that counts is recorded, and its delivery begins. -/
theorem deliver_land (t : TaskId) (fs : List Frame) {u : SlotId} {g : Nat} {doc : String} (m : Mode)
    (touches : now.Touches u) (shows_ : now.Shows doc) (current : w.isCurrent u g = true) :
    ∃ x y, now.Deeds w x ∧ Update.IsFor y u doc g m ∧
      x.records = w.records.modify u (fun k => { k with lastUpdate := some y }) ∧
      w.deliver t fs u doc g m =
        x.land t (.go (.notifying y (List.range w.subscribers.length) :: fs) (.value .unit)) := by
  obtain ⟨v, alike, eq⟩ := deliver_eq t fs doc m current
  refine ⟨v.modifySlot u fun k => { k with lastUpdate := some (w.drawn u doc g m) }, w.drawn u doc g m,
    ((Deeds.one (.render w m shows_)).trans (.alike alike)).trans (.slot touches fun _ => by rfl),
    ⟨rfl, rfl, rfl, rfl⟩, ?_, eq⟩
  have records : v.records = w.records := alike.records
  rw [← records]
  exact records_modifySlot u fun _ => rfl

theorem isCurrent_bumped (distinct : Distinct w.seats) (doc : DocId) (text : String)
    (same : v.seats = (w.bumped doc).seats) :
    v.isCurrent (w.editBegun doc text).slot (w.editBegun doc text).generation = true := by
  obtain ⟨-, -, a, at_slot, isOpen, -, generation⟩ := bumped_seats distinct doc text
  exact isCurrent_iff.2 ⟨a, same ▸ at_slot, isOpen, generation⟩

theorem length_abandonPending (w : World) (u : SlotId) :
    (w.abandonPending u).tasks.length = w.tasks.length := by
  unfold World.abandonPending
  dsimp only
  split
  · split
    · rfl
    · exact (cancel_nudges _ _).length
  · rfl

theorem length_stopped (w : World) (t f : TaskId) : (w.stopped t f).tasks.length = w.tasks.length := by
  rw [stopped, (cancel_nudges _ _).length]
  simp [modifyTask]

theorem lt_length_spawn {t : TaskId} (there : t < w.tasks.length) (op : Op) (watchers : TaskId → List Job) :
    t < (w.spawn op watchers).2.tasks.length := by
  simp only [spawn, enqueue, List.length_append]
  exact Nat.lt_succ_of_lt there

theorem tasks_bumped (w : World) (doc : DocId) : (w.bumped doc).tasks = w.tasks := by
  unfold World.bumped ensureSlot
  cases w.slotOf? doc <;> rfl

theorem tasks_deliver (t : TaskId) (fs : List Frame) (s : SlotId) (doc : String) (g : Nat) (m : Mode) :
    (w.deliver t fs s doc g m).tasks = w.tasks := by
  cases current : w.isCurrent s g with
  | false => rw [deliver_stale t fs doc m current]; rfl
  | true =>
    obtain ⟨v, alike, eq⟩ := deliver_eq t fs doc m current
    rw [eq]
    exact alike.tasks

/-- The task that an edit hands its text to is there afterwards. -/
theorem worker_there (t : TaskId) (fs : List Frame) (doc : DocId) (text : String) {u : TaskId}
    (worker : w.workerFor doc text = some u) :
    u < (w.beginEdit t fs doc text).tasks.length ∧ needsCompile text = true := by
  unfold workerFor at worker
  split at worker
  · rename_i name
    split at worker
    · rename_i needed
      obtain rfl := Option.some.inj worker
      have unclassified : classify text = none := by simpa [needsCompile] using needed
      refine ⟨?_, needed⟩
      rw [beginEdit_name]
      dsimp only
      rw [unclassified]
      dsimp only
      rw [tasks_deliver]
      simp [startRequest, spawn, enqueue, modifySlot, note, emit, length_abandonPending,
        tasks_bumped]
    · cases worker
  · cases worker

theorem beginEdit_reaches {doc : DocId} {text : String} (distinct : Distinct w.seats)
    (running : w.current = some (t, fs, .start (.edit doc text))) :
    w.Reaches t fs (.start (.edit doc text)) (w.beginEdit t fs doc text) := by
  let e := w.editBegun doc text
  let v := (w.bumped doc).abandonPending e.slot
  have readied : w.Deeds w v :=
    (Deeds.bumped running).trans (.abandonPending (.edits running) fun k found u => bumped_pending running found)
  have records : v.records = (w.bumped doc).records.modify e.slot fun k => { k with pending := none } :=
    records_abandonPending _
  have seats : v.seats = (w.bumped doc).seats := seats_abandonPending _
  by_cases named : ∃ name, doc = .name name
  · obtain ⟨name, rfl⟩ := named
    rw [beginEdit_name]
    dsimp only
    split
    · rename_i mode classified
      have current : (v.note (.fastPath name e.generation mode.kind)).isCurrent e.slot e.generation = true :=
        isCurrent_bumped distinct (.name name) text seats
      obtain ⟨x, u, deeds, shown, recorded, eq⟩ :=
        deliver_land w t (.issued e.generation :: fs) mode (.edits running) (.edit running) current
      have same : x.records = (w.bumped (.name name)).records.modify e.slot fun k =>
          { k with pending := e.worker, tasks := k.tasks ++ e.worker.toList, lastUpdate := some u } := by
        have nobody : e.worker = none := by simp [e, editBegun, workerFor, needsCompile, classified]
        rw [recorded, nobody, (Alike.note v _).records, records, List.modify_modify_eq]
        simp [Function.comp_def]
      have noted : w.Deeds w (v.note (.fastPath name e.generation mode.kind)) :=
        readied.trans (.alike (.note v _))
      rw [eq]
      refine .land (noted.trans deeds) ?_
      rw [same, noted.subscribers]
      exact .edits rfl (by simpa [firstMode, classified] using shown)
    · rename_i needed
      let r : Request := ⟨e.slot, name, e.generation, text⟩
      let hired := (v.note (.scheduled name e.generation text)).startRequest r
      have hires : w.Hires r := ⟨t, fs, name, running, by simp [r, needsCompile, needed], rfl⟩
      have hiring : w.Deeds w hired :=
        ((readied.trans (.alike (.note v _))).trans (.one (.hire _ hires))).trans
        (.slot (.edits running) fun _ => by rfl)
      have current : hired.isCurrent e.slot e.generation = true :=
        isCurrent_bumped distinct (.name name) text ((seats_startRequest r).trans seats)
      obtain ⟨x, u, deeds, shown, recorded, eq⟩ :=
        deliver_land w t (.issued e.generation :: fs) .pending (.edits running) (.edit running) current
      have same : x.records = (w.bumped (.name name)).records.modify e.slot fun k =>
          { k with pending := e.worker, tasks := k.tasks ++ e.worker.toList, lastUpdate := some u } := by
        have worker : e.worker = some (v.note (.scheduled name e.generation text)).tasks.length := by
          show e.worker = some v.tasks.length
          rw [length_abandonPending, tasks_bumped]
          simp [e, editBegun, workerFor, needsCompile, needed]
        rw [recorded, worker, records_startRequest, (Alike.note v _).records, records,
          List.modify_modify_eq, List.modify_modify_eq]
        simp [Function.comp_def]
      rw [eq]
      refine .land (hiring.trans deeds) ?_
      rw [same, hiring.subscribers]
      exact .edits rfl (by simpa [firstMode, needed] using shown)
  · rw [beginEdit_unnamed w t fs text fun name eq => named ⟨name, eq⟩]
    refine Reaches.land (l := .go fs (.fault _)) readied ?_
    rw [records]
    exact .misnamed fun name eq => named ⟨name, eq⟩

theorem beginClose_reaches {doc : DocId} (running : w.current = some (t, fs, .start (.close doc)))
    (there : ∀ s, ∀ u ∈ w.tasksOf s, u < w.tasks.length) :
    w.Reaches t fs (.start (.close doc)) (w.beginClose t fs doc) := by
  have gauged {v : World} : w.Deeds v v.gaugeDocuments :=
    .one (.gauge _ _ ⟨t, fs, _, running, .inr ⟨doc, rfl⟩⟩)
  have removed : w.Deeds w (w.removeSlot doc).2 := by
    unfold removeSlot
    cases registered : w.slotOf? doc with
    | some s =>
      have shut : w.Deeds w (w.modifySlot s fun k => { k with isOpen := false }) :=
        .slot (.closes running registered) fun _ => by rfl
      cases doc with
      | name name => exact (shut.trans (.one (.discard _ running))).trans gauged
      | number | truth => exact shut.trans gauged
    | none =>
      cases doc with
      | name name => exact (Deeds.one (.discard _ running)).trans gauged
      | number | truth => exact gauged
  have tasks : ∀ s k, w.slotOf? doc = some s → (w.removeSlot doc).2.slots[s]? = some k →
      ∀ u ∈ k.tasks, w.Drops u := by
    intro s k registered found u member
    have at_slot : (w.removeSlot doc).2.slots[s]? =
        (w.slots[s]?).map fun k => { k with isOpen := false } := by
      cases doc <;> simp [removeSlot, registered, modifySlot, gaugeDocuments]
    rw [at_slot, Option.map_eq_some_iff] at found
    obtain ⟨k', found, rfl⟩ := found
    exact .member running registered found member
  have cancelled : w.Deeds (w.removeSlot doc).2 ((w.removeSlot doc).2.cancelAll
      (((w.removeSlot doc).1.map (w.removeSlot doc).2.tasksOf).getD [])) := by
    refine .cancelAll _ fun u mem => ?_
    cases registered : w.slotOf? doc with
    | none => simp [removeSlot, registered] at mem
    | some s =>
      have first : (w.removeSlot doc).1 = some s := registered
      simp only [first, Option.map_some, Option.getD_some, tasksOf] at mem
      cases found : (w.removeSlot doc).2.slots[s]? with
      | none => simp [found] at mem
      | some k => exact tasks s k registered found u (by simpa [found] using mem)
  obtain ⟨x, l, asides, closes, eq⟩ := beginClose_leads running there
  have records : x.records = (w.removeSlot doc).2.records :=
    (asides_records asides).trans (cancelAll_nudges _ _).records
  rw [eq]
  refine .land ((removed.trans cancelled).trans (.asides asides)) ?_
  rw [records]
  exact .closes closes

/-- With the lock in hand a request goes on to its compile, or gives the lock back. -/
theorem locked_land (t : TaskId) (fs : List Frame) (r : Request) (lines : now.Lines w r.slot) :
    ∃ x l, now.Deeds w x ∧ x.records = w.records ∧ w.locked t fs r = x.land t l ∧
      (w.isCurrent r.slot r.generation = false ∧ l = .go fs (.value .unit) ∨
        w.isCurrent r.slot r.generation = true ∧ l = .go (.holding r :: fs) (.start (.compile r.text))) := by
  unfold World.locked
  split
  · rename_i stale
    have noted := Alike.note w (.superseded r.doc r.generation)
    refine ⟨_, .go fs (.value .unit), (Deeds.alike noted).trans (.release (lines.of_slots noted.slots)), ?_, rfl,
      .inl ⟨by simpa using stale, rfl⟩⟩
    exact (records_release _).trans noted.records
  · rename_i current
    exact ⟨w, _, .refl, rfl, rfl, .inr ⟨by simpa using current, rfl⟩⟩

theorem quietEnded_reaches {v : Value} (running : w.current = some (t, .quiet r :: fs, .value v)) :
    w.Reaches t (.quiet r :: fs) (.value v) (w.quietEnded t fs r) := by
  let forget (k : Slot) : Slot := if k.pending = some t then { k with pending := none } else k
  let x := w.modifySlot r.slot forget
  have records : x.records = w.records.modify r.slot forget := by
    refine records_modifySlot r.slot fun k => ?_
    simp only [forget, Slot.unlocked]
    split
    · rfl
    · rfl
  have touches : w.Touches r.slot := .requests running trivial rfl
  have lines : w.Lines x r.slot := by
    refine (Lines.self touches).modifySlot fun k p mem => ?_
    simp only [forget] at mem
    split at mem
    · exact mem
    · exact mem
  have same : x.isCurrent r.slot r.generation = w.isCurrent r.slot r.generation :=
    isCurrent_seats (seats_quieted t r) _ _
  have quieted : w.Deeds w x := by
    refine .slot touches fun k => ?_
    simp only [forget]
    split
    · rfl
    · rfl
  unfold World.quietEnded
  dsimp only
  split
  · rename_i current
    have current : w.isCurrent r.slot r.generation = true := same.symm.trans current
    unfold acquire
    split
    · obtain ⟨y, l, deeds, recorded, eq, cases_on⟩ := locked_land (w := x.setHeld r.slot true) t fs r
        (lines.modifySlot fun _ _ => id)
      have held : (x.setHeld r.slot true).isCurrent r.slot r.generation = true := by
        rw [isCurrent_seats (seats_setHeld r.slot true), same, current]
      rw [eq]
      refine .land ((quieted.trans (.slot touches fun _ => by rfl)).trans deeds) ?_
      rw [recorded, records_setHeld, records]
      refine .quieted (.inr ⟨current, .inr ?_⟩)
      rcases cases_on with ⟨stale, -⟩ | ⟨-, rfl⟩
      · rw [held] at stale
        cases stale
      · rfl
    · let join (k : Slot) : Slot := { k with lock := { k.lock with queue := k.lock.queue ++ [(t, .waiting)] } }
      have joined : (x.modifySlot r.slot join).records = x.records := records_lock r.slot fun _ => rfl
      have next : Next w t (.quiet r :: fs) (.value v) (.park (.queueing r :: fs) (.lock r.slot))
          (x.modifySlot r.slot join).records := by
        rw [joined, records]
        exact .quieted (.inr ⟨current, .inl rfl⟩)
      exact .land (quieted.trans (.slot (f := join) touches fun _ => by rfl)) next
  · rename_i stale
    refine Reaches.land (l := .go fs (.value .unit)) quieted ?_
    rw [records]
    refine .quieted (.inl ⟨?_, rfl⟩)
    rw [← same]
    simpa using stale

theorem called_reaches {v : Value} (running : w.current = some (t, .queueing r :: fs, .value v)) :
    w.Reaches t (.queueing r :: fs) (.value v) (w.called t fs r) := by
  have touches : w.Touches r.slot := .requests running trivial rfl
  let x := (w.leaveQueue r.slot t).setHeld r.slot true
  have lines : w.Lines x r.slot := by
    refine ((Lines.self touches).modifySlot fun k p mem => ?_).modifySlot fun _ _ => id
    exact (List.mem_filter.1 mem).1
  have same : x.isCurrent r.slot r.generation = w.isCurrent r.slot r.generation :=
    isCurrent_seats ((seats_setHeld r.slot true).trans (seats_leaveQueue r.slot t)) _ _
  obtain ⟨y, l, deeds, recorded, eq, cases_on⟩ := locked_land (w := x) t fs r lines
  rw [World.called, eq]
  have taken : w.Deeds w x := (Deeds.slot touches fun _ => by rfl).trans (.slot touches fun _ => by rfl)
  refine .land (taken.trans deeds) ?_
  rw [recorded, records_setHeld, records_leaveQueue]
  rw [same] at cases_on
  exact .called cases_on

theorem leftQueue_reaches (running : w.current = some (t, .queueing r :: fs, .cancelled)) :
    w.Reaches t (.queueing r :: fs) .cancelled (w.leftQueue t fs r) := by
  have touches : w.Touches r.slot := .requests running trivial rfl
  have lines : w.Lines (w.leaveQueue r.slot t) r.slot :=
    (Lines.self touches).modifySlot fun k p mem => (List.mem_filter.1 mem).1
  have left : w.Deeds w (w.leaveQueue r.slot t) := .slot touches fun _ => by rfl
  unfold World.leftQueue
  dsimp only
  split
  · refine Reaches.land (l := .go fs .cancelled) left ?_
    rw [records_leaveQueue]
    exact .leaves
  · refine Reaches.land (l := .go fs .cancelled) (left.trans (.callNext lines)) ?_
    rw [records_callNext, records_leaveQueue]
    exact .leaves

theorem settle_reaches {x : World} {o : Except Fault Outcome} {out : Outcome}
    (running : w.current = some (t, .holding r :: fs, answerSignal o))
    (same : answerMode (.ok out) = answerMode o) (deeds : w.Deeds w x) (records : x.records = w.records) :
    w.Reaches t (.holding r :: fs) (answerSignal o) (x.settle t fs r out) := by
  have current_iff := isCurrent_records records r.slot r.generation
  have ends : (answerSignal o).IsEnd ∧ answerSignal o ≠ .cancelled := by
    cases o with
    | ok | error => exact ⟨trivial, nofun⟩
  unfold World.settle
  split
  · rename_i stale
    have noted : x.Alike ((x.count "compile.stale_dropped").note
        (.dropped r.doc r.generation (x.generationOf r.slot))) := .trans (.count x _) (.note _ _)
    refine Reaches.land (l := .go fs (.value .unit)) (deeds.trans (.alike noted)) ?_
    rw [noted.records, records]
    refine .drops ends.1 ends.2 (.inr ?_)
    rw [← current_iff]
    simpa using stale
  · rename_i current
    have current : x.isCurrent r.slot r.generation = true := by simpa using current
    have delivered : ∀ {y : World}, x.Alike y →
        w.Reaches t (.holding r :: fs) (answerSignal o)
          (y.deliver t fs r.slot r.doc r.generation (answerMode o)) := by
      intro y alike
      have still : y.isCurrent r.slot r.generation = true := by
        rw [isCurrent_records alike.records, current]
      obtain ⟨z, u, more, shown, recorded, eq⟩ :=
        deliver_land w t fs (answerMode o) (.requests running (answerSignal_end o) rfl)
          (.answer running rfl (current_iff ▸ current)) still
      have told := deeds.trans (.alike alike)
      rw [eq, told.subscribers]
      refine .land (told.trans more) ?_
      rw [recorded, alike.records, records]
      exact .settles rfl (current_iff ▸ current) shown
    cases out with
    | success story =>
      have shown : Mode.compiled story = answerMode o := same
      simp only [shown]
      exact delivered (.refl x)
    | failed k m =>
      have shown : Mode.compilerError m = answerMode o := same
      simp only [shown]
      exact delivered (.note x _)

theorem compiled_reaches {v : Value} (running : w.current = some (t, .holding r :: fs, .value v)) :
    w.Reaches t (.holding r :: fs) (.value v) (w.compiled t fs r v) := by
  have released : w.Deeds w (w.release r.slot) := .release (.self (.requests running trivial rfl))
  unfold World.compiled
  split
  · rename_i o
    exact settle_reaches (o := .ok o) running rfl released (records_release _)
  · rename_i other
    refine Reaches.land (l := .go fs (.value .unit)) released ?_
    rw [records_release]
    refine .drops trivial nofun (.inl fun o eq => ?_)
    cases o with
    | ok o => exact other o (Signal.value.inj eq)
    | error f => cases eq

theorem compileCrashed_reaches {e : Fault} (running : w.current = some (t, .holding r :: fs, .fault e)) :
    w.Reaches t (.holding r :: fs) (.fault e) (w.compileCrashed t fs r e) := by
  have noted := Alike.note w (.crashed r.doc e.message)
  refine settle_reaches (o := .error e) running rfl ((Deeds.alike noted).trans (.release ?_)) ?_
  · exact (Lines.self (.requests running trivial rfl)).of_slots noted.slots
  exact (records_release _).trans noted.records

theorem rests_reaches : w.Reaches t fs (.start (.background r)) (w.sleep t (.quiet r :: fs) w.setup.quiet) := by
  unfold World.sleep
  split
  · exact .land (l := .turn (.quiet r :: fs)) .refl (.rests (.inl rfl))
  · refine ⟨w, .timed (.quiet r :: fs) .alarm w.setup.quiet.toNat, .refl, ?_, rfl⟩
    exact .rests (.inr ⟨_, rfl⟩)

/-- What a running task may be about to do. -/
inductive Prospect : List Frame → Signal → Prop
  | aside {fs : List Frame} {s : Signal} (h : IsAside fs s) : Prospect fs s
  | edit {fs : List Frame} (doc : DocId) (text : String) : Prospect fs (.start (.edit doc text))
  | close {fs : List Frame} (doc : DocId) : Prospect fs (.start (.close doc))
  | background {fs : List Frame} (r : Request) : Prospect fs (.start (.background r))
  | quiet {fs : List Frame} {s : Signal} (r : Request) (ends : s.IsEnd) : Prospect (.quiet r :: fs) s
  | queueing {fs : List Frame} {s : Signal} (r : Request) (ends : s.IsEnd) : Prospect (.queueing r :: fs) s
  | holding {fs : List Frame} {s : Signal} (r : Request) (ends : s.IsEnd) : Prospect (.holding r :: fs) s

theorem prospect_of_end (fs : List Frame) (ends : s.IsEnd) : Prospect fs s := by
  cases fs with
  | nil => exact .aside (isAside_nil ends)
  | cons f rest =>
    cases f with
    | quiet r => exact .quiet r ends
    | queueing r => exact .queueing r ends
    | holding r => exact .holding r ends
    | _ => exact .aside (isAside_cons ends rfl)

theorem prospect (licit : s.IsLicit) (fs : List Frame) : Prospect fs s := by
  cases s with
  | value | fault | cancelled => exact prospect_of_end fs trivial
  | start op =>
    by_cases edit : ∃ doc text, op = .edit doc text
    · obtain ⟨doc, text, rfl⟩ := edit
      exact .edit doc text
    · by_cases close : ∃ doc, op = .close doc
      · obtain ⟨doc, rfl⟩ := close
        exact .close doc
      · rcases licit with given | ⟨r, rfl⟩
        · exact .aside ⟨given, fun doc text eq => edit ⟨doc, text, eq⟩, fun doc eq => close ⟨doc, eq⟩⟩
        · exact .background r

/-- Every step of the running task is a row of deeds and a landing. -/
theorem move_reaches (distinct : Distinct w.seats) (there : ∀ s, ∀ u ∈ w.tasksOf s, u < w.tasks.length)
    (running : w.current = some (t, fs, s)) (licit : s.IsLicit) : w.Reaches t fs s (w.move t fs s) := by
  cases prospect licit fs with
  | aside aside =>
    obtain ⟨x, l, asides, turn, eq⟩ := move_leads running aside there
    rw [eq]
    refine .land (.asides asides) ?_
    rw [asides_records asides]
    exact .turn aside turn
  | edit doc text => exact beginEdit_reaches distinct running
  | close doc => exact beginClose_reaches running there
  | background r => exact rests_reaches
  | @quiet rest _ r ends =>
    cases s with
    | start => exact ends.elim
    | value v => exact quietEnded_reaches running
    | fault e => exact .land (l := .go rest (.fault e)) .refl (.breaks (.inl rfl))
    | cancelled =>
      exact .land (l := .go rest (.value .unit)) (.alike (.note w (.abandoned r.doc r.generation))) .abandons
  | @queueing rest _ r ends =>
    cases s with
    | start => exact ends.elim
    | value v => exact called_reaches running
    | fault e => exact .land (l := .go rest (.fault e)) .refl (.breaks (.inr rfl))
    | cancelled => exact leftQueue_reaches running
  | @holding rest _ r ends =>
    cases s with
    | start => exact ends.elim
    | value v => exact compiled_reaches running
    | fault e => exact compileCrashed_reaches running
    | cancelled =>
      refine .land (l := .go rest .cancelled) (.release (.self (.requests running trivial rfl))) ?_
      rw [records_release]
      exact .lets

end
end World
end InkPreview.Live
