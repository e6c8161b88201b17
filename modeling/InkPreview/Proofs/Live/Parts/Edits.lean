import InkPreview.Proofs.Live.Parts.Turns
import InkPreview.Proofs.Live.Parts.Scopes
/-!
Edits and closings in a part. The documents of a part are edited, shown and closed there as in the whole.
-/
namespace InkPreview.Live

variable {e f : Inlay}

namespace World
variable {w : World}

theorem extent_act (w : World) (t : TaskId) (fs : List Frame) (i : Nat) (y : Update) (todo : List Action) :
    (w.act t fs i y todo).extent = w.extent := by
  induction todo generalizing w with
  | nil => rfl
  | cons a rest ih =>
    cases a with
    | wait n => exact extent_sleep w t _ n
    | report => exact ih _
    | edit | close | ask | fail | skip => rfl

theorem pages_bumped (w : World) (doc : DocId) : (w.bumped doc).gallery = w.gallery := by
  unfold bumped World.ensureSlot
  cases w.slotOf? doc <;> rfl

theorem extent_abandonPending (w : World) (s : SlotId) : (w.abandonPending s).extent = w.extent := by
  unfold abandonPending
  dsimp only
  split
  · split
    · rw [extent_modifySlot]
    · rw [extent_count, extent_cancel, extent_modifySlot]
  · rw [extent_modifySlot]

theorem extent_tell (w : World) (t : TaskId) (fs : List Frame) (i : Nat) (y : Update) :
    (w.tell t fs i y).extent = { w.extent with calls := w.calls.modify i fun _ => w.timesCalled i + 1 } := by
  unfold tell
  dsimp only
  split
  · exact extent_act _ t fs i y _
  · rfl
  · rfl

theorem extent_removeSlot (w : World) (doc : DocId) : (w.removeSlot doc).2.extent = w.extent := by
  unfold World.removeSlot
  cases w.slotOf? doc <;> cases doc <;> simp [World.gaugeDocuments, extent, World.modifySlot, Gallery.discard]

theorem slots_beginEdit (w : World) (t : TaskId) (fs : List Frame) (doc : DocId) (text : String)
    (none : w.slotOf? doc = none) : (w.beginEdit t fs doc text).slots.length ≠ w.slots.length := by
  rw [← seats_length, seats_beginEdit, seats_length]
  simp [bumped, ensureSlot_of_none none, World.gaugeDocuments, World.modifySlot]

end World

namespace World.Parted
variable {w v u : World} {t : TaskId} {s : SlotId}

/-! ### Slots -/

theorem seat (h : Parted e f w v u) (s : SlotId) : w.seats[e.slot s]? = v.seats[s]? := by
  rw [seats_getElem?, seats_getElem?, h.slot]
  cases v.slots[s]? <;> rfl

theorem slotOf? (h : Parted e f w v u) (distinct : Distinct w.seats) {doc : DocId} (of : e.docs doc) :
    w.slotOf? doc = (v.slotOf? doc).map e.slot := by
  cases registered : v.slotOf? doc with
  | some s =>
    obtain ⟨a, at_s, isOpen, same⟩ := slotOf?_seat registered
    exact slotOf?_eq distinct (h.seat s ▸ at_s) isOpen same
  | none =>
    cases registered' : w.slotOf? doc with
    | none => rfl
    | some s' =>
      obtain ⟨a, at_s, isOpen, same⟩ := slotOf?_seat registered'
      rcases h.apart.slot.cover s' with ⟨i, rfl⟩ | ⟨j, rfl⟩
      · exact absurd same (slotOf?_none registered (h.seat i ▸ at_s) isOpen)
      · rw [seats_getElem?, h.other.slots j, Option.map_map, Option.map_eq_some_iff] at at_s
        obtain ⟨k, at_j, rfl⟩ := at_s
        have theirs := h.other.opened j k at_j
        exact absurd theirs ((h.apart.docs _).1 ((h.apart.same same).2 of))

theorem tasksOf (h : Parted e f w v u) (s : SlotId) : w.tasksOf (e.slot s) = (v.tasksOf s).map e.task := by
  rw [World.tasksOf, World.tasksOf, h.slot]
  cases v.slots[s]? <;> rfl

theorem gaugeDocuments (h : Parted e f w v u) : Parted e f w.gaugeDocuments v.gaugeDocuments u :=
  { h with
    mine := { h.mine with }
    other := { h.other with } }

theorem ensureSlot (h : Parted e f w v u) (distinct : Distinct w.seats) {doc : DocId} (of : e.docs doc)
    (room : w.slotOf? doc = none → ∃ i, e.slot i = w.slots.length) :
    (w.ensureSlot doc).1 = e.slot (v.ensureSlot doc).1 ∧ Parted e f (w.ensureSlot doc).2 (v.ensureSlot doc).2 u := by
  have same := h.slotOf? distinct of
  cases registered : v.slotOf? doc with
  | some s =>
    rw [registered] at same
    rw [ensureSlot_of_some registered, ensureSlot_of_some same]
    exact ⟨rfl, h⟩
  | none =>
    rw [registered] at same
    rw [ensureSlot_of_none registered, ensureSlot_of_none same]
    obtain ⟨next, opened⟩ := h.openSlot of (room same)
    exact ⟨next, opened.gaugeDocuments⟩

/-! ### Edits -/

theorem abandonPending (h : Parted e f w v u) (s : SlotId) :
    Parted e f (w.abandonPending (e.slot s)) (v.abandonPending s) u := by
  have pending : w.slots[e.slot s]?.bind (·.pending) = (v.slots[s]?.bind (·.pending)).map e.task := by
    rw [h.slot]
    cases v.slots[s]? <;> rfl
  have forgotten := h.modifySlot s (fun k => { k with pending := none }) (fun k => { k with pending := none })
    (fun _ => rfl) fun _ => rfl
  unfold World.abandonPending
  rw [pending]
  cases v.slots[s]?.bind (·.pending) with
  | none => exact forgotten
  | some t =>
    simp only [Option.map_some, forgotten.hasEnded]
    split
    · exact forgotten
    · exact (forgotten.cancel t).count _

theorem startRequest (h : Parted e f w v u) (q : Request) (room : ∃ i, e.task i = w.tasks.length) :
    Parted e f (w.startRequest (q.via e)) (v.startRequest q) u := by
  obtain ⟨new, spawned⟩ := h.spawn (Op.via_background e q) room (fun b => [.forget q.slot b])
    (fun b => [.forget (e.slot q.slot) b]) fun _ => rfl
  have registered := spawned.modifySlot q.slot
    (fun k => { k with pending := some v.tasks.length, tasks := k.tasks ++ [v.tasks.length] })
    (fun k => { k with pending := some w.tasks.length, tasks := k.tasks ++ [w.tasks.length] })
    (fun k => by
      have new : w.tasks.length = e.task v.tasks.length := new
      simp [Slot.via, new]) fun _ => rfl
  exact registered

theorem render (h : Parted e f w v u) {doc : String} (of : e.docs (.name doc)) (mode : Mode)
    (room : (w.gallery.render doc mode).2.2.next ≠ w.gallery.next → ∃ i, e.page i = w.gallery.next) :
    Parted e f { w with gallery := (w.gallery.render doc mode).2.2 }
      { v with gallery := (v.gallery.render doc mode).2.2 } u :=
  { h with
    mine := { h.mine with gallery := (h.mine.gallery.render h.apart.page.left of mode room).2.2 }
    other := { h.other with
      gallery := by
        refine h.other.gallery.render_other ((h.apart.docs _).1 of) mode fun more i same => ?_
        obtain ⟨j, at_j⟩ := room more
        exact h.apart.page.apart j i (at_j.trans same.symm) } }

theorem noteRendering (h : Parted e f w v u) (how how' : Rendering) (a a' : Artifact) :
    Parted e f (w.noteRendering how a) (v.noteRendering how' a') u := by
  have silent : ∀ (x : World) how a, (x.noteRendering how a).told = x.told := by
    intro x how a
    unfold World.noteRendering
    dsimp only
    split <;> rfl
  have found : ∀ (x : World) how a, (x.noteRendering how a).finder = x.finder := by
    intro x how a
    unfold World.noteRendering
    dsimp only
    split <;> rfl
  exact h.congr (.noteRendering w how a) (found _ _ _) (silent _ _ _) (.noteRendering v how' a') (found _ _ _) (silent _ _ _)

theorem deliver (h : Parted e f w v u) (t : TaskId) (fs : List Frame) (s : SlotId) {doc : String}
    (of : e.docs (.name doc))
    (g : Nat) (mode : Mode)
    (room : (w.deliver (e.task t) (fs.map (·.via e)) (e.slot s) doc g mode).gallery.next ≠ w.gallery.next →
      ∃ i, e.page i = w.gallery.next) :
    Parted e f (w.deliver (e.task t) (fs.map (·.via e)) (e.slot s) doc g mode) (v.deliver t fs s doc g mode) u := by
  have same := h.isCurrent s g
  cases current : v.isCurrent s g with
  | false =>
    rw [current] at same
    rw [deliver_stale _ _ doc mode current, deliver_stale _ _ doc mode same]
    exact (h.count _).ret t fs .unit
  | true =>
    rw [current] at same
    have room' : (w.gallery.render doc mode).2.2.next ≠ w.gallery.next → ∃ i, e.page i = w.gallery.next := by
      intro more
      refine room ?_
      obtain ⟨x, alike, eq⟩ := deliver_eq (w := w) (e.task t) (fs.map (·.via e)) doc mode same
      rw [eq]
      show x.gallery.next ≠ _
      rwa [alike.gallery]
    obtain ⟨page, -, -⟩ := h.mine.gallery.render h.apart.page.left of mode room'
    have shown := (h.render of mode room').noteRendering (w.gallery.render doc mode).2.1 (v.gallery.render doc mode).2.1
      (w.gallery.render doc mode).1 (v.gallery.render doc mode).1
    let y : Update := ⟨s, doc, g, mode, (v.gallery.render doc mode).1⟩
    have kept := (shown.modifySlot s (fun k => { k with lastUpdate := some y })
      (fun k => { k with lastUpdate := some (y.via e) }) (fun _ => rfl) fun _ => rfl).ret t
        (.notifying y (List.range w.subscribers.length) :: fs) .unit
    have number : ∀ (x : World) how a, (x.noteRendering how a).subscribers.length = x.subscribers.length := by
      intro x how a
      rw [(Alike.noteRendering x how a).subscribers]
    simp only [World.deliver, same, current, Bool.not_true, Bool.false_eq_true, if_false]
    simp only [World.modifySlot, number, h.mine.hearers]
    simp only [Update.via, y, ← page, List.map_cons, Frame.via] at kept
    exact kept

theorem bumped (h : Parted e f w v u) (distinct : Distinct w.seats) {doc : DocId} (of : e.docs doc) (text : String)
    (room : w.slotOf? doc = none → ∃ i, e.slot i = w.slots.length) :
    (w.editBegun doc text).slot = e.slot (v.editBegun doc text).slot ∧
      (w.editBegun doc text).generation = (v.editBegun doc text).generation ∧
      Parted e f (w.bumped doc) (v.bumped doc) u := by
  obtain ⟨same, ensured⟩ := h.ensureSlot distinct of room
  have number : (w.ensureSlot doc).2.generationOf (w.ensureSlot doc).1 = (v.ensureSlot doc).2.generationOf (v.ensureSlot doc).1 := by
    rw [same, ensured.generationOf]
  refine ⟨same, congrArg (· + 1) number, ?_⟩
  unfold World.bumped
  dsimp only
  rw [number, same]
  exact ensured.modifySlot _ _ _ (fun _ => rfl) fun _ => rfl

theorem beginEdit (h : Parted e f w v u) (distinct : Distinct w.seats) (t : TaskId) (fs : List Frame) {doc : DocId}
    (of : e.docs doc) (text : String)
    (room : e.Room w.extent (w.beginEdit (e.task t) (fs.map (·.via e)) doc text).extent) :
    Parted e f (w.beginEdit (e.task t) (fs.map (·.via e)) doc text) (v.beginEdit t fs doc text) u := by
  obtain ⟨slot, number, bumped⟩ := h.bumped distinct of text fun none =>
    room.slot (slots_beginEdit w _ _ doc text none)
  have abandoned := bumped.abandonPending (v.editBegun doc text).slot
  rw [← slot] at abandoned
  by_cases named : ∃ name, doc = .name name
  · obtain ⟨name, rfl⟩ := named
    rw [beginEdit_name] at room ⊢
    rw [beginEdit_name]
    have pages : ((w.bumped (.name name)).abandonPending (w.editBegun (.name name) text).slot).gallery.next = w.gallery.next := by
      have same := congrArg Extent.pages (extent_abandonPending (w.bumped (.name name)) (w.editBegun (.name name) text).slot)
      exact same.trans (congrArg Gallery.next (pages_bumped w _))
    dsimp only at room ⊢
    rw [number] at room ⊢
    cases classified : classify text with
    | some mode =>
      simp only [classified] at room ⊢
      have noted := abandoned.note (.fastPath name (v.editBegun (.name name) text).generation mode.kind)
        (.fastPath name (v.editBegun (.name name) text).generation mode.kind)
      rw [slot] at noted room pages ⊢
      exact noted.deliver t (.issued (v.editBegun (.name name) text).generation :: fs) _ of _ mode fun more => by
        obtain ⟨i, at_i⟩ := room.page fun same => more (same.trans pages.symm)
        exact ⟨i, at_i.trans pages.symm⟩
    | none =>
      simp only [classified] at room ⊢
      have noted := abandoned.note (.scheduled name (v.editBegun (.name name) text).generation text)
        (.scheduled name (v.editBegun (.name name) text).generation text)
      rw [slot] at noted room pages ⊢
      have length : ((w.bumped (.name name)).abandonPending (e.slot (v.editBegun (.name name) text).slot)).tasks.length =
          w.tasks.length := by rw [length_abandonPending, tasks_bumped]
      have hires : ∃ i, e.task i =
          ((w.bumped (.name name)).abandonPending (e.slot (v.editBegun (.name name) text).slot)).tasks.length := by
        rw [length]
        refine room.task ?_
        show List.length (World.tasks _) ≠ w.tasks.length
        rw [tasks_deliver]
        simp [World.startRequest, World.spawn, World.enqueue, World.modifySlot, World.note, World.emit, length]
      have started := noted.startRequest
        ⟨(v.editBegun (.name name) text).slot, name, (v.editBegun (.name name) text).generation, text⟩ hires
      exact started.deliver t (.issued (v.editBegun (.name name) text).generation :: fs) _ of _ .pending fun more => by
        obtain ⟨i, at_i⟩ := room.page fun same => more (same.trans pages.symm)
        exact ⟨i, at_i.trans pages.symm⟩
  · have unnamed : ∀ name, doc ≠ .name name := fun name eq => named ⟨name, eq⟩
    rw [beginEdit_unnamed _ _ _ text unnamed, beginEdit_unnamed _ _ _ text unnamed]
    exact abandoned.fail t fs _

/-! ### Telling subscribers -/

theorem act (h : Parted e f w v u) (t : TaskId) (fs : List Frame) (i : Nat) (y : Update) {todo : List Action}
    (own : ∀ a ∈ todo, a.IsOwn) :
    Parted e f (w.act (e.task t) (fs.map (·.via e)) i (y.via e) todo) (v.act t fs i y todo) u := by
  induction todo generalizing w v with
  | nil => exact h.ret t fs .unit
  | cons a rest ih =>
    have later : ∀ a ∈ rest, a.IsOwn := fun a mem => own a (List.mem_cons_of_mem _ mem)
    cases a with
    | wait n => exact h.sleep t (.acting i y rest :: fs) n
    | edit text => exact h.call t (.acting i y rest :: fs) (.edit (.name y.doc) text)
    | close => exact h.call t (.acting i y rest :: fs) (.close (.name y.doc))
    | ask | skip => exact (own _ List.mem_cons_self).elim
    | fail m => exact h.fail t fs (.subscriber m)
    | report =>
      have told := h.emit (.slowDone w.clock i) (.slowDone v.clock i) (fun _ _ _ => nofun) fun _ _ _ => nofun
      exact ih told later

/-- A subscriber is called once more, for a document of the part. -/
theorem reckon (h : Parted e f w v u) {i : Nat} (there : i < w.subscribers.length)
    (room : ∃ n, e.call i n = w.timesCalled i) : e.call i (v.timesCalled i) = w.timesCalled i ∧
      Parted e f { w with calls := w.calls.modify i fun _ => w.timesCalled i + 1 }
        { v with calls := v.calls.modify i fun _ => v.timesCalled i + 1 } u := by
  obtain ⟨n, at_n⟩ := room
  have next : e.call i (v.timesCalled i) = w.timesCalled i := by
    have late : ¬ n < v.timesCalled i := by simp [← h.mine.calls, at_n]
    have first : ¬ v.timesCalled i < n := fun less =>
      Nat.lt_irrefl _ ((h.mine.calls i _).1 (at_n ▸ (h.apart.call i).left less))
    obtain rfl : n = v.timesCalled i := by omega
    exact at_n
  have counted : ∀ (x : World) (k : Nat), i < x.calls.length → ∀ j,
      World.timesCalled { x with calls := x.calls.modify i fun _ => k } j = if i = j then k else x.timesCalled j := by
    intro x k there j
    by_cases here : i = j
    · subst here
      simp [World.timesCalled, there]
    · simp [World.timesCalled, here]
  have there_w : i < w.calls.length := h.mine.called.1 ▸ there
  have there_v : i < v.calls.length := h.mine.called.2 ▸ there
  refine ⟨next, { h with
    mine := { h.mine with
      called := by simpa using h.mine.called
      calls := by
        intro j m
        rw [counted w _ there_w, counted v _ there_v]
        split
        · rename_i here
          subst here
          have same : e.call i m ≤ e.call i (v.timesCalled i) ↔ m ≤ v.timesCalled i := (h.apart.call i).left.le_iff_le
          rw [Nat.lt_succ_iff, Nat.lt_succ_iff, ← same, next]
        · exact h.mine.calls j m }
    other := { h.other with
      called := by simpa using h.other.called
      calls := by
        intro j m
        rw [counted w _ there_w, ← h.other.calls]
        split
        · rename_i here
          subst here
          have apart := (h.apart.call i).apart (v.timesCalled i) m
          omega
        · rfl } }⟩

theorem tell (h : Parted e f w v u) (own : ∀ y ∈ v.subscribers, y.IsOwn) (t : TaskId) (fs : List Frame)
    (i : Nat) {y : Update}
    (of : e.docs (.name y.doc)) (room : e.Room w.extent (w.tell (e.task t) (fs.map (·.via e)) i (y.via e)).extent) :
    Parted e f (w.tell (e.task t) (fs.map (·.via e)) i (y.via e)) (v.tell t fs i y) u := by
  have at_i := h.mine.subscribers i
  cases found : w.subscribers[i]? with
  | none =>
    rw [found] at at_i
    have past : w.subscribers.length ≤ i := List.getElem?_eq_none_iff.1 found
    have kept_w : ∀ k : Nat → Nat, w.calls.modify i k = w.calls :=
      fun k => List.modify_eq_self (by rw [h.mine.called.1]; exact past)
    have kept_v : ∀ k : Nat → Nat, v.calls.modify i k = v.calls :=
      fun k => List.modify_eq_self (by rw [h.mine.called.2]; exact past)
    simp only [World.tell, found, at_i, Option.map_none, kept_w, kept_v]
    exact h.ret t fs .unit
  | some x =>
    rw [found] at at_i
    have there : i < w.subscribers.length := (List.getElem?_eq_some_iff.1 found).1
    have there' : i < w.calls.length := h.mine.called.1 ▸ there
    have more : ((w.tell (e.task t) (fs.map (·.via e)) i (y.via e)).extent.calls[i]?).getD 0 ≠ (w.extent.calls[i]?).getD 0 := by
      rw [extent_tell]
      simp [there', extent, World.timesCalled]
    obtain ⟨next, reckoned⟩ := h.reckon there (room.call i more)
    cases x with
    | clients => exact (own _ (List.mem_of_getElem? at_i)).elim
    | script acts =>
      have mine : ∀ a ∈ acts (w.timesCalled i + 1), a.IsOwn := by
        have all := own _ (List.mem_of_getElem? at_i) (v.timesCalled i + 1)
        dsimp only at all
        rwa [Nat.add_sub_cancel, next] at all
      have told := (reckoned.hear i of).act t fs i y mine
      simp only [World.tell, found, at_i, Option.map_some, Subscriber.via, Nat.add_sub_cancel]
      have next' : e.call i ((v.calls[i]?).getD 0) = (w.calls[i]?).getD 0 := next
      rw [next']
      exact told

theorem tellNext (h : Parted e f w v u) (own : ∀ y ∈ v.subscribers, y.IsOwn) (t : TaskId) (fs : List Frame) {y : Update}
    (of : e.docs (.name y.doc)) (js : List Nat)
    (room : e.Room w.extent (w.tellNext (e.task t) (fs.map (·.via e)) (y.via e) js).extent) :
    Parted e f (w.tellNext (e.task t) (fs.map (·.via e)) (y.via e) js) (v.tellNext t fs y js) u := by
  cases js with
  | nil => exact h.ret t fs .unit
  | cons i rest =>
    have same : w.isCurrent (y.via e).slot (y.via e).generation = v.isCurrent y.slot y.generation := h.isCurrent _ _
    simp only [World.tellNext, same] at room ⊢
    split
    · rename_i current
      rw [if_pos current] at room
      exact h.tell own t (.notifying y rest :: fs) i of room
    · exact h.ret t fs .unit

theorem subscriberFailed (h : Parted e f w v u) (own : ∀ y ∈ v.subscribers, y.IsOwn) (t : TaskId)
    (fs : List Frame) {y : Update}
    (of : e.docs (.name y.doc)) (js : List Nat) (x : Fault)
    (room : e.Room w.extent (w.subscriberFailed (e.task t) (fs.map (·.via e)) (y.via e) js x).extent) :
    Parted e f (w.subscriberFailed (e.task t) (fs.map (·.via e)) (y.via e) js x) (v.subscriberFailed t fs y js x) u :=
  ((h.count _).note _ _).tellNext own t fs of js room

/-! ### Closing -/

theorem removeSlot (h : Parted e f w v u) (distinct : Distinct w.seats) {doc : DocId} (of : e.docs doc) :
    (w.removeSlot doc).1 = (v.removeSlot doc).1.map e.slot ∧ Parted e f (w.removeSlot doc).2
    (v.removeSlot doc).2 u := by
  have same := h.slotOf? distinct of
  have discarded : ∀ {w' v' : World} (name : String), e.docs (.name name) → Parted e f w' v' u →
      Parted e f { w' with gallery := w'.gallery.discard name } { v' with gallery := v'.gallery.discard name } u := by
    intro w' v' name of h
    exact { h with
      mine := { h.mine with gallery := h.mine.gallery.discard name }
      other := { h.other with gallery := h.other.gallery.discard_other ((h.apart.docs _).1 of) } }
  refine ⟨same, ?_⟩
  unfold World.removeSlot
  rw [same]
  refine Parted.gaugeDocuments ?_
  cases v.slotOf? doc with
  | none =>
    cases doc with
    | name name => exact discarded name of h
    | number | truth => exact h
  | some s =>
    have shut := h.modifySlot s (fun k => { k with isOpen := false }) (fun k => { k with isOpen := false })
      (fun _ => rfl) fun _ => rfl
    cases doc with
    | name name => exact discarded name of shut
    | number | truth => exact shut

theorem closed (h : Parted e f w v u) (t : TaskId) (fs : List Frame) (doc : DocId) (n : Nat) :
    Parted e f (w.closed (e.task t) (fs.map (·.via e)) doc n) (v.closed t fs doc n) u := by
  cases doc with
  | name name => exact (h.note _ _).ret t fs .unit
  | number | truth => exact h.fail t fs _

theorem beginClose (h : Parted e f w v u) (distinct : Distinct w.seats) (t : TaskId) (fs : List Frame) {doc : DocId}
    (of : e.docs doc) (room : e.Room w.extent (w.beginClose (e.task t) (fs.map (·.via e)) doc).extent) :
    Parted e f (w.beginClose (e.task t) (fs.map (·.via e)) doc) (v.beginClose t fs doc) u := by
  obtain ⟨taken, removed⟩ := h.removeSlot distinct of
  have extent := extent_removeSlot w doc
  unfold World.beginClose at room ⊢
  generalize w.removeSlot doc = p at *
  generalize v.removeSlot doc = q at *
  obtain ⟨s', w'⟩ := p
  obtain ⟨s, v'⟩ := q
  obtain rfl : s' = s.map e.slot := taken
  cases s with
  | none => exact removed.ret t fs .unit
  | some s =>
    have listed := removed.tasksOf s
    unfold World.tasksOf at listed
    dsimp only [Option.map_some] at room listed extent ⊢
    rw [listed] at room ⊢
    simp only [List.isEmpty_map, List.length_map] at room ⊢
    split
    · exact removed.closed t fs doc 0
    · rename_i some
      rw [if_neg some] at room
      obtain ⟨reach, cancelled⟩ := removed.cancellingAll ((v'.slots[s]?.map (·.tasks)).getD [])
      have asked : (w'.cancellingAll (List.map e.task ((v'.slots[s]?.map (·.tasks)).getD []))).2.extent = w.extent :=
        (extent_cancelAll w' _).trans extent
      rw [← asked] at room
      generalize w'.cancellingAll _ = p at *
      generalize v'.cancellingAll _ = q at *
      obtain ⟨r, w''⟩ := p
      obtain ⟨r', v''⟩ := q
      obtain rfl : r = r' := reach
      cases r with
      | endless => exact cancelled.fail t fs .nestedTooDeep
      | missed | reached => exact cancelled.gather t (.closing doc _ :: fs) _ room

theorem awaitIdle (h : Parted e f w v u) (t : TaskId) (fs : List Frame) (s : SlotId)
    (room : e.Room w.extent (w.awaitIdle (e.task t) (fs.map (·.via e)) (e.slot s)).extent) :
    Parted e f (w.awaitIdle (e.task t) (fs.map (·.via e)) (e.slot s)) (v.awaitIdle t fs s) u := by
  have listed := h.tasksOf s
  have running : (w.tasksOf (e.slot s)).filter (fun k => !w.hasEnded k) =
      ((v.tasksOf s).filter fun k => !v.hasEnded k).map e.task := by
    rw [listed, List.filter_map]
    exact congrArg _ (List.filter_congr fun k _ => by simp [h.hasEnded])
  unfold World.tasksOf at running
  unfold World.awaitIdle at room ⊢
  dsimp only at room ⊢
  rw [running] at room ⊢
  simp only [List.isEmpty_map] at room ⊢
  split
  · exact h.ret t fs .unit
  · rename_i some
    rw [if_neg some] at room
    exact h.gather t (.idling s :: fs) _ room

theorem beginWaitIdle (h : Parted e f w v u) (distinct : Distinct w.seats) (t : TaskId) (fs : List Frame) {doc : DocId}
    (of : e.docs doc) (room : e.Room w.extent (w.beginWaitIdle (e.task t) (fs.map (·.via e)) doc).extent) :
    Parted e f (w.beginWaitIdle (e.task t) (fs.map (·.via e)) doc) (v.beginWaitIdle t fs doc) u := by
  have same := h.slotOf? distinct of
  unfold World.beginWaitIdle at room ⊢
  cases registered : v.slotOf? doc with
  | none =>
    rw [registered] at same
    rw [same]
    exact h.ret t fs .unit
  | some s =>
    rw [registered] at same
    rw [same] at room ⊢
    exact h.awaitIdle t fs s room

end World.Parted
end InkPreview.Live
