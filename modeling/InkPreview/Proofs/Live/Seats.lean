import InkPreview.Proofs.Live.Moves
import InkPreview.Proofs.Live.Waking
/-!
Seats. The seat of a slot is its document, whether the slot is open, and the number of its newest
edit. Only an edit and a closing change seats; whatever else a step does leaves them as they are.
-/
namespace InkPreview.Live

structure Seat where
  doc : DocId
  isOpen : Bool
  generation : Nat

def Slot.seat (k : Slot) : Seat := ⟨k.doc, k.isOpen, k.generation⟩

@[simp] theorem Slot.seat_doc (k : Slot) : k.seat.doc = k.doc := rfl
@[simp] theorem Slot.seat_isOpen (k : Slot) : k.seat.isOpen = k.isOpen := rfl
@[simp] theorem Slot.seat_generation (k : Slot) : k.seat.generation = k.generation := rfl

/-- Seats are added; a seat keeps its document, its number never falls, and once closed it stays
closed. -/
def Ages (xs ys : List Seat) : Prop :=
  ∀ (s : SlotId) (a : Seat), xs[s]? = some a →
    ∃ b, ys[s]? = some b ∧ b.doc = a.doc ∧ a.generation ≤ b.generation ∧ (b.isOpen → a.isOpen)

namespace Ages

theorem refl (xs : List Seat) : Ages xs xs := fun _ a h => ⟨a, h, rfl, Nat.le_refl _, id⟩

theorem trans {xs ys zs : List Seat} (h : Ages xs ys) (h' : Ages ys zs) : Ages xs zs := by
  intro s a ha
  obtain ⟨b, hb, doc, le, isOpen⟩ := h s a ha
  obtain ⟨c, hc, doc', le', isOpen'⟩ := h' s b hb
  exact ⟨c, hc, doc'.trans doc, Nat.le_trans le le', fun h => isOpen (isOpen' h)⟩

theorem append (xs : List Seat) (a : Seat) : Ages xs (xs ++ [a]) := by
  intro s b h
  refine ⟨b, ?_, rfl, Nat.le_refl _, id⟩
  rw [List.getElem?_append_left (List.getElem?_eq_some_iff.1 h).1, h]

theorem modify (xs : List Seat) (s : SlotId) {f : Seat → Seat}
    (h : ∀ a, xs[s]? = some a →
      (f a).doc = a.doc ∧ a.generation ≤ (f a).generation ∧ ((f a).isOpen → a.isOpen)) :
    Ages xs (xs.modify s f) := by
  intro u a ha
  rw [List.getElem?_modify, ha]
  refine ⟨_, rfl, ?_⟩
  split
  · rename_i at_s
    exact h a (at_s ▸ ha)
  · exact ⟨rfl, Nat.le_refl _, id⟩

end Ages

namespace World

def seats (w : World) : List Seat := w.slots.map Slot.seat

theorem seats_length (w : World) : w.seats.length = w.slots.length := List.length_map _

@[simp] theorem seats_getElem? (w : World) (s : SlotId) : w.seats[s]? = w.slots[s]?.map Slot.seat :=
  List.getElem?_map

section
variable {w v : World}

theorem isCurrent_seats (h : v.seats = w.seats) (s : SlotId) (g : Nat) :
    v.isCurrent s g = w.isCurrent s g := by
  have seat : v.slots[s]?.map Slot.seat = w.slots[s]?.map Slot.seat := by
    rw [← seats_getElem?, ← seats_getElem?, h]
  unfold isCurrent
  cases hv : v.slots[s]? with
  | none => cases hw : w.slots[s]? <;> simp_all
  | some k =>
    cases hw : w.slots[s]? with
    | none => simp_all
    | some k' => simp_all [Slot.seat]

theorem isCurrent_iff {s : SlotId} {g : Nat} :
    w.isCurrent s g = true ↔ ∃ a, w.seats[s]? = some a ∧ a.isOpen = true ∧ a.generation = g := by
  unfold isCurrent
  cases h : w.slots[s]? with
  | none => simp [h]
  | some k => simp [h, Slot.seat]

/-! ### What leaves seats alone -/

theorem seats_modifySlot {f : Slot → Slot} (s : SlotId) (same : ∀ k, (f k).seat = k.seat) :
    (w.modifySlot s f).seats = w.seats := by
  refine List.ext_getElem? fun i => ?_
  rw [seats_getElem?, seats_getElem?, modifySlot, List.getElem?_modify]
  cases w.slots[i]? with
  | none => rfl
  | some k =>
    by_cases h : s = i
    · simp [h, same]
    · simp [h]

@[simp] theorem seats_setHeld (s : SlotId) (held : Bool) : (w.setHeld s held).seats = w.seats :=
  seats_modifySlot s fun _ => rfl

@[simp] theorem seats_leaveQueue (s : SlotId) (t : TaskId) : (w.leaveQueue s t).seats = w.seats :=
  seats_modifySlot s fun _ => rfl

@[simp] theorem seats_note (n : Note) : (w.note n).seats = w.seats := rfl

@[simp] theorem seats_wake (t : TaskId) (s : Signal) : (w.wake t s).seats = w.seats := rfl

theorem Alike.seats (h : w.Alike v) : v.seats = w.seats := congrArg (List.map Slot.seat) h.slots

theorem Nudge.seats {H : TaskId → Prop} (h : Nudge H w v) : v.seats = w.seats := by
  rcases h.slots with same | ⟨s, t, -, marked⟩
  · exact congrArg (List.map Slot.seat) same
  · rw [World.seats, marked]
    exact seats_modifySlot (w := w) s fun _ => rfl

theorem Nudges.seats {H : TaskId → Prop} (h : Nudges H w v) : v.seats = w.seats :=
  h.keep (P := fun x => x.seats = w.seats) (fun _ _ same step => step.seats.trans same) rfl

@[simp] theorem seats_cancel (t : TaskId) : (w.cancel t).seats = w.seats := (cancel_nudges w t).seats

@[simp] theorem seats_cancelAll (ts : List TaskId) : (w.cancelAll ts).seats = w.seats :=
  (cancelAll_nudges w ts).seats

@[simp] theorem seats_callNext (s : SlotId) : (w.callNext s).seats = w.seats := by
  unfold callNext
  split
  · exact seats_modifySlot s fun _ => rfl
  · rfl

@[simp] theorem seats_release (s : SlotId) : (w.release s).seats = w.seats := by simp [release]

theorem Aside.seats {t : TaskId} (h : Aside t w v) : v.seats = w.seats := by
  cases h with
  | alike h => exact h.seats
  | stop | forestall => exact seats_cancel _
  | @enroll members _ =>
    obtain ⟨ks, js, eq, -⟩ := enroll_eq w t members
    rw [eq]
    rfl
  | files | call | process | launch | spawn | follow => rfl

theorem asides_seats {t : TaskId} (h : Relation.ReflTransGen (Aside t) w v) : v.seats = w.seats := by
  induction h with
  | refl => rfl
  | tail _ step ih => exact step.seats.trans ih

@[simp] theorem seats_finish (t : TaskId) (r : Result) : (w.finish t r).seats = w.seats := by
  obtain ⟨f, -, eq⟩ := finish_eq w t r
  rw [eq]
  rfl

@[simp] theorem seats_park (t : TaskId) (fs : List Frame) (wait : Wait) :
    (w.park t fs wait).seats = w.seats := park_same Nudges.seats (fun _ _ _ _ _ => rfl) w t fs wait

@[simp] theorem seats_land (t : TaskId) (l : Landing) : (w.land t l).seats = w.seats :=
  land_same Nudges.seats (fun _ _ _ _ _ => rfl) w t l

theorem Leads.seats {t : TaskId} {P : Landing → Prop} (h : w.Leads t P v) : v.seats = w.seats := by
  obtain ⟨u, l, asides, -, rfl⟩ := h
  rw [seats_land, asides_seats asides]

theorem seats_abandonPending (s : SlotId) : (w.abandonPending s).seats = w.seats := by
  have forgotten : (w.modifySlot s fun k => { k with pending := none }).seats = w.seats :=
    seats_modifySlot s fun _ => rfl
  unfold abandonPending
  dsimp only
  split
  · split
    · exact forgotten
    · exact (Alike.count _ _).seats.trans ((seats_cancel _).trans forgotten)
  · exact forgotten

theorem seats_startRequest (r : Request) : (w.startRequest r).seats = w.seats :=
  seats_modifySlot r.slot fun _ => rfl

/-- The update of an edit, with the page for its mode. -/
def drawn (w : World) (s : SlotId) (doc : String) (g : Nat) (m : Mode) : Update :=
  ⟨s, doc, g, m, (w.gallery.render doc m).1⟩

/-- An edit that still counts gets its update, which the slot keeps and the subscribers are told
of. -/
theorem deliver_eq (t : TaskId) (fs : List Frame) {s : SlotId} {g : Nat} (doc : String) (m : Mode)
    (current : w.isCurrent s g = true) :
    ∃ v, ({ w with gallery := (w.gallery.render doc m).2.2 } : World).Alike v ∧ w.deliver t fs s doc g m =
      (v.modifySlot s fun k => { k with lastUpdate := some (w.drawn s doc g m) }).ret t
        (.notifying (w.drawn s doc g m) (List.range w.subscribers.length) :: fs) .unit := by
  let shown := w.gallery.render doc m
  refine ⟨{ w with gallery := shown.2.2 }.noteRendering shown.2.1 shown.1, .noteRendering _ _ _, ?_⟩
  simp only [deliver, current]
  have subscribers := (Alike.noteRendering { w with gallery := shown.2.2 } shown.2.1 shown.1).subscribers
  simp only [shown] at subscribers ⊢
  simp [modifySlot, subscribers, drawn]

theorem deliver_stale (t : TaskId) (fs : List Frame) {s : SlotId} {g : Nat} (doc : String) (m : Mode)
    (stale : w.isCurrent s g = false) :
    w.deliver t fs s doc g m = (w.count "compile.stale_dropped").ret t fs .unit := by
  simp [deliver, stale]

theorem seats_deliver (t : TaskId) (fs : List Frame) (s : SlotId) (doc : String) (g : Nat)
    (m : Mode) : (w.deliver t fs s doc g m).seats = w.seats := by
  cases current : w.isCurrent s g with
  | false => rw [deliver_stale t fs doc m current]; rfl
  | true =>
    obtain ⟨v, alike, eq⟩ := deliver_eq t fs doc m current
    have seats : v.seats = w.seats := alike.seats
    rw [eq, ← seats]
    exact seats_modifySlot (f := fun k => { k with lastUpdate := some (w.drawn s doc g m) }) s fun _ => rfl

/-- The request is no longer the one that waits for quiet. -/
theorem seats_quieted (t : TaskId) (r : Request) : (w.modifySlot r.slot fun k =>
    if k.pending = some t then { k with pending := none } else k).seats = w.seats := by
  refine seats_modifySlot r.slot fun k => ?_
  split
  · rfl
  · rfl

end

/-! ### The registry of open documents -/

/-- No two open seats are of one document. -/
def Distinct (xs : List Seat) : Prop :=
  ∀ (s u : SlotId) (a b : Seat), xs[s]? = some a → xs[u]? = some b → a.isOpen → b.isOpen →
    a.doc.same b.doc → s = u

/-- The seat was taken for the document. -/
def Serves (xs : List Seat) (s : SlotId) (doc : String) : Prop :=
  ∃ a, xs[s]? = some a ∧ a.doc = .name doc

theorem getElem?_concat_iff {α : Type} {xs : List α} {x a : α} {i : Nat} :
    (xs ++ [x])[i]? = some a ↔ xs[i]? = some a ∨ i = xs.length ∧ a = x := by
  rw [List.getElem?_append]
  split
  · rename_i lt
    simp [Nat.ne_of_lt lt]
  · rename_i ge
    rw [List.getElem?_singleton, List.getElem?_eq_none (Nat.le_of_not_lt ge)]
    simp [Nat.sub_eq_zero_iff_le, eq_comm (a := x)]
    omega

theorem Distinct.append {xs : List Seat} (h : Distinct xs) {a : Seat}
    (new : ∀ (s : SlotId) (b : Seat), xs[s]? = some b → b.isOpen → ¬ b.doc.same a.doc) :
    Distinct (xs ++ [a]) := by
  have swap : ∀ {d e : DocId}, d.same e → e.same d := by
    intro d e same
    simpa [DocId.same, eq_comm] using same
  intro s u b c hb hc isOpen isOpen' same
  rcases getElem?_concat_iff.1 hb with old | ⟨rfl, rfl⟩
  · rcases getElem?_concat_iff.1 hc with old' | ⟨rfl, rfl⟩
    · exact h s u b c old old' isOpen isOpen' same
    · exact absurd same (new s b old isOpen)
  · rcases getElem?_concat_iff.1 hc with old' | ⟨rfl, rfl⟩
    · exact absurd (swap same) (new u c old' isOpen')
    · rfl

theorem Serves.mono {xs ys : List Seat} {s : SlotId} {doc : String} (h : Serves xs s doc)
    (ages : Ages xs ys) : Serves ys s doc := by
  obtain ⟨a, ha, isDoc⟩ := h
  obtain ⟨b, hb, same, -⟩ := ages s a ha
  exact ⟨b, hb, same.trans isDoc⟩

theorem eq_name_of_same {d : DocId} {name : String} (h : d.same (.name name)) : d = .name name := by
  cases d with
  | name s => simpa using h
  | number n => simp [DocId.same, DocId.key] at h
  | truth b => simp [DocId.same, DocId.key] at h

theorem name_eq_of_same {d : DocId} {name : String} (h : (DocId.name name).same d) : d = .name name := by
  refine eq_name_of_same ?_
  simp only [DocId.same, decide_eq_true_eq] at h ⊢
  exact h.symm

section
variable {w : World} {doc : DocId} {s : SlotId}

theorem mem_openSlots {k : Slot} :
    (s, k) ∈ w.openSlots ↔ w.slots[s]? = some k ∧ k.isOpen = true := by
  simp only [openSlots, List.mem_map, List.mem_filter, Prod.exists, Prod.mk.injEq]
  constructor
  · rintro ⟨k', s', ⟨mem, isOpen⟩, rfl, rfl⟩
    exact ⟨by simpa using List.mem_zipIdx_iff_getElem?.1 mem, isOpen⟩
  · rintro ⟨found, isOpen⟩
    exact ⟨k, s, ⟨List.mem_zipIdx_iff_getElem?.2 (by simpa using found), isOpen⟩, rfl, rfl⟩

theorem slotOf?_seat (h : w.slotOf? doc = some s) :
    ∃ a, w.seats[s]? = some a ∧ a.isOpen ∧ a.doc.same doc := by
  simp only [slotOf?, Option.map_eq_some_iff, Prod.exists] at h
  obtain ⟨s, k, found, rfl⟩ := h
  obtain ⟨at_s, isOpen⟩ := mem_openSlots.1 (List.mem_of_find?_eq_some found)
  have same : k.doc.same doc = true := by simpa using List.find?_some found
  exact ⟨k.seat, by simp [at_s], isOpen, same⟩

theorem slotOf?_none (h : w.slotOf? doc = none) {a : Seat} (found : w.seats[s]? = some a)
    (isOpen : a.isOpen) : ¬ a.doc.same doc := by
  simp only [slotOf?, Option.map_eq_none_iff, List.find?_eq_none] at h
  rw [seats_getElem?, Option.map_eq_some_iff] at found
  obtain ⟨k, at_s, rfl⟩ := found
  exact h (s, k) (mem_openSlots.2 ⟨at_s, isOpen⟩)

theorem slotOf?_eq (distinct : Distinct w.seats) {a : Seat} (found : w.seats[s]? = some a)
    (isOpen : a.isOpen) (same : a.doc.same doc) : w.slotOf? doc = some s := by
  cases h : w.slotOf? doc with
  | none => exact absurd same (slotOf?_none h found isOpen)
  | some u =>
    obtain ⟨b, at_u, isOpen', same'⟩ := slotOf?_seat h
    have one : a.doc.same b.doc := by
      simp only [DocId.same, decide_eq_true_eq] at same same' ⊢
      exact same.trans same'.symm
    rw [distinct s u a b found at_u isOpen isOpen' one]

theorem ensureSlot_of_some (h : w.slotOf? doc = some s) : w.ensureSlot doc = (s, w) := by
  rw [ensureSlot, h]

theorem ensureSlot_of_none (h : w.slotOf? doc = none) : w.ensureSlot doc =
    (w.slots.length, { w with slots := w.slots ++ [Slot.new doc] }.gaugeDocuments) := by
  rw [ensureSlot, h]

theorem seats_opened :
    ({ w with slots := w.slots ++ [Slot.new doc] }.gaugeDocuments).seats =
      w.seats ++ [⟨doc, true, 0⟩] := by
  simp [gaugeDocuments, seats, Slot.new, Slot.seat]

/-- The slot of a document, whether it was there or has just been opened. -/
theorem ensureSlot_seats (distinct : Distinct w.seats) (doc : DocId) :
    Ages w.seats (w.ensureSlot doc).2.seats ∧ Distinct (w.ensureSlot doc).2.seats ∧
      ∃ a, (w.ensureSlot doc).2.seats[(w.ensureSlot doc).1]? = some a ∧ a.isOpen ∧
        a.doc.same doc := by
  cases h : w.slotOf? doc with
  | some s =>
    rw [ensureSlot_of_some h]
    exact ⟨.refl _, distinct, slotOf?_seat h⟩
  | none =>
    rw [ensureSlot_of_none h, seats_opened]
    refine ⟨.append _ _, distinct.append fun _ _ => slotOf?_none h, ⟨doc, true, 0⟩, ?_, rfl,
      by simp [DocId.same]⟩
    · rw [← seats_length, List.getElem?_concat_length]

/-! ### Edits and closings -/

theorem Distinct.modify {xs : List Seat} (h : Distinct xs) (s : SlotId) {f : Seat → Seat}
    (kept : ∀ a, (f a).doc = a.doc ∧ ((f a).isOpen → a.isOpen)) : Distinct (xs.modify s f) := by
  have before : ∀ {u : SlotId} {b : Seat}, (xs.modify s f)[u]? = some b →
      ∃ a, xs[u]? = some a ∧ b.doc = a.doc ∧ (b.isOpen → a.isOpen) := by
    intro u b hb
    rw [List.getElem?_modify] at hb
    obtain ⟨a, ha, rfl⟩ := Option.map_eq_some_iff.1 hb
    refine ⟨a, ha, ?_⟩
    split
    · exact kept a
    · exact ⟨rfl, id⟩
  intro u v b c hb hc isOpen isOpen' same
  obtain ⟨a, ha, doc, kept⟩ := before hb
  obtain ⟨a', ha', doc', kept'⟩ := before hc
  exact h u v a a' ha ha' (kept isOpen) (kept' isOpen') (doc ▸ doc' ▸ same)

theorem map_modify {s : SlotId} {f : Slot → Slot} {g : Seat → Seat} (xs : List Slot)
    (h : ∀ k, (f k).seat = g k.seat) :
    (xs.modify s f).map Slot.seat = (xs.map Slot.seat).modify s g := by
  refine List.ext_getElem? fun i => ?_
  rw [List.getElem?_map, List.getElem?_modify, List.getElem?_modify, List.getElem?_map]
  cases xs[i]? with
  | none => rfl
  | some k =>
    by_cases at_s : s = i
    · simp [at_s, h]
    · simp [at_s]

/-- The slot of an edit has its new generation. -/
def bumped (w : World) (doc : DocId) : World :=
  let (s, v) := w.ensureSlot doc
  v.modifySlot s fun k => { k with generation := v.generationOf s + 1 }

theorem bumped_seats (distinct : Distinct w.seats) (doc : DocId) (text : String) :
    Ages w.seats (w.bumped doc).seats ∧ Distinct (w.bumped doc).seats ∧
      ∃ a, (w.bumped doc).seats[(w.editBegun doc text).slot]? = some a ∧ a.isOpen ∧
        a.doc.same doc ∧ a.generation = (w.editBegun doc text).generation := by
  obtain ⟨ages, distinct, a, at_s, isOpen, same⟩ := ensureSlot_seats distinct doc
  simp only [bumped, editBegun]
  generalize w.ensureSlot doc = p at *
  obtain ⟨s, v⟩ := p
  have bump : (v.modifySlot s fun k => { k with generation := v.generationOf s + 1 }).seats =
      v.seats.modify s fun a => { a with generation := v.generationOf s + 1 } :=
    map_modify v.slots fun _ => rfl
  have count : v.generationOf s = a.generation := by
    rw [seats_getElem?, Option.map_eq_some_iff] at at_s
    obtain ⟨k, at_s, rfl⟩ := at_s
    simp [generationOf, at_s]
  rw [bump]
  refine ⟨ages.trans (.modify _ _ fun b at_b => ?_), distinct.modify s fun b => ⟨rfl, id⟩,
    { a with generation := v.generationOf s + 1 }, ?_, isOpen, same, rfl⟩
  · obtain rfl : a = b := Option.some.inj (at_s.symm.trans at_b)
    exact ⟨rfl, count ▸ Nat.le_succ _, id⟩
  · rw [List.getElem?_modify_eq]
    simp only at at_s
    rw [at_s]
    rfl

/-- An edit of a text that needs no compiler is delivered; any other is handed to a task and
delivered as pending. -/
theorem beginEdit_name (w : World) (t : TaskId) (fs : List Frame) (name text : String) :
    w.beginEdit t fs (.name name) text =
      let e := w.editBegun (.name name) text
      let v := (w.bumped (.name name)).abandonPending e.slot
      match classify text with
      | some mode => (v.note (.fastPath name e.generation mode.kind)).deliver t
          (.issued e.generation :: fs) e.slot name e.generation mode
      | none => ((v.note (.scheduled name e.generation text)).startRequest
          ⟨e.slot, name, e.generation, text⟩).deliver t
          (.issued e.generation :: fs) e.slot name e.generation .pending := rfl

theorem beginEdit_unnamed (w : World) (t : TaskId) (fs : List Frame) {doc : DocId} (text : String)
    (unnamed : ∀ name, doc ≠ .name name) :
    w.beginEdit t fs doc text =
      ((w.bumped doc).abandonPending (w.editBegun doc text).slot).fail t fs
        (.nameNotText doc.typeName) := by
  cases doc with
  | name name => exact absurd rfl (unnamed name)
  | number n => rfl
  | truth b => rfl

theorem seats_beginEdit (t : TaskId) (fs : List Frame) (doc : DocId) (text : String) :
    (w.beginEdit t fs doc text).seats = (w.bumped doc).seats := by
  by_cases named : ∃ name, doc = .name name
  · obtain ⟨name, rfl⟩ := named
    rw [beginEdit_name]
    dsimp only
    split
    · rw [seats_deliver, seats_note, seats_abandonPending]
    · rw [seats_deliver, seats_startRequest, seats_note, seats_abandonPending]
  · rw [beginEdit_unnamed w t fs text fun name eq => named ⟨name, eq⟩]
    exact seats_abandonPending _

theorem removeSlot_seats (doc : DocId) :
    (w.removeSlot doc).1 = w.slotOf? doc ∧ (w.removeSlot doc).2.seats =
      match w.slotOf? doc with
      | some s => w.seats.modify s fun a => { a with isOpen := false }
      | none => w.seats := by
  refine ⟨rfl, ?_⟩
  cases h : w.slotOf? doc with
  | none => cases doc <;> simp [removeSlot, h, gaugeDocuments, seats]
  | some s =>
    have shut : (w.modifySlot s fun k => { k with isOpen := false }).seats =
        w.seats.modify s fun a => { a with isOpen := false } := map_modify w.slots fun _ => rfl
    dsimp only
    rw [← shut]
    cases doc <;> simp [removeSlot, h, gaugeDocuments, seats]

/-- Taking the slot of a document away leaves the tasks as they are. -/
theorem removeSlot_rest (w : World) (doc : DocId) :
    (w.removeSlot doc).1 = w.slotOf? doc ∧ (w.removeSlot doc).2.tasks = w.tasks ∧
      (w.removeSlot doc).2.alarms = w.alarms ∧ ∀ s, (w.removeSlot doc).2.tasksOf s = w.tasksOf s := by
  refine ⟨rfl, ?_⟩
  cases registered : w.slotOf? doc with
  | none => cases doc <;> simp [removeSlot, registered, gaugeDocuments, tasksOf]
  | some x =>
    have kept : ∀ s : SlotId, ((w.slots.modify x fun k => { k with isOpen := false })[s]?.map Slot.tasks).getD [] =
        (w.slots[s]?.map Slot.tasks).getD [] := by
      intro s
      rw [List.getElem?_modify]
      cases w.slots[s]? with
      | none => rfl
      | some k => by_cases here : x = s <;> simp [here]
    cases doc <;> simp [removeSlot, registered, gaugeDocuments, modifySlot, tasksOf, kept]

/-- How a closing leaves the task that asked for it. -/
inductive Closes (doc : DocId) (fs : List Frame) : Landing → Prop
  | through {s : Signal} (hs : s.IsEnd) : Closes doc fs (.go fs s)
  | waits {n : Nat} {g : GroupId} : Closes doc fs (.park (.closing doc n :: fs) (.group g))

theorem closed_leads (t : TaskId) (fs : List Frame) (doc : DocId) (n : Nat) :
    w.Leads t (Closes doc fs) (w.closed t fs doc n) := by
  cases doc with
  | name name => exact .alike (.note w _) (.ret (.through trivial))
  | number n => exact .fail (.through trivial)
  | truth b => exact .fail (.through trivial)

/-- With its slot away and the tasks of the slot cancelled, a closing waits for those tasks. -/
theorem beginClose_leads {t : TaskId} {fs : List Frame} {doc : DocId}
    (running : w.current = some (t, fs, .start (.close doc)))
    (there : ∀ s, ∀ u ∈ w.tasksOf s, u < w.tasks.length) :
    ((w.removeSlot doc).2.cancelAll
      (((w.removeSlot doc).1.map (w.removeSlot doc).2.tasksOf).getD [])).Leads t (Closes doc fs)
        (w.beginClose t fs doc) := by
  have there' : ∀ s, ∀ u ∈ (w.removeSlot doc).2.tasksOf s, u < (w.removeSlot doc).2.tasks.length := by
    obtain ⟨-, tasks, -, kept⟩ := w.removeSlot_rest doc
    intro s u mem
    rw [tasks]
    exact there s u (kept s ▸ mem)
  have running' : (w.removeSlot doc).2.current = some (t, fs, .start (.close doc)) := by
    refine Eq.trans ?_ running
    unfold removeSlot
    cases w.slotOf? doc <;> cases doc <;> rfl
  unfold beginClose
  generalize w.removeSlot doc = p at *
  obtain ⟨s, v⟩ := p
  cases s with
  | none => exact .ret (.through trivial)
  | some s =>
    have tasks : (Option.map v.tasksOf (some s)).getD [] = (v.slots[s]?.map (·.tasks)).getD [] := rfl
    dsimp only
    rw [tasks]
    split
    · rename_i empty
      rw [List.isEmpty_iff.1 empty]
      exact closed_leads t fs doc 0
    · rename_i some
      split
      · exact .fail (.through trivial)
      · refine .gather ?_ (.closes ((cancelAll_nudges v _).current.trans running'))
          (fun none => absurd (List.isEmpty_iff.2 none) some) fun _ => .waits
        rw [(cancelAll_nudges v _).length]
        exact there' s

end
end World
end InkPreview.Live
