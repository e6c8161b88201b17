import InkPreview.Proofs.Live.Duties
/-!
What becomes of the record of a slot, whatever happens: it is left alone or closed, gets the update of a
request that is answered, or is that of the edit which begins. Main statement: `Sane.apply_revised`.
-/
namespace InkPreview.Live

/-- A record to which no edit has come since. -/
structure Slot.Later (k k' : Slot) : Prop where
  doc : k'.doc = k.doc
  generation : k'.generation = k.generation
  isOpen : k'.isOpen = true → k.isOpen = true
  pending : ∀ u, k'.pending = some u → k.pending = some u
  tasks : ∀ u ∈ k'.tasks, u ∈ k.tasks

theorem Slot.Later.refl (k : Slot) : k.Later k := ⟨rfl, rfl, id, fun _ => id, fun _ => id⟩

namespace World

/-- What an input makes of the record of the slot `x`. -/
inductive Revised (w : World) (i : Input) (x : SlotId) (k' : Slot) : Prop
  | kept {k : Slot} (found : w.records[x]? = some k) (later : k.Later k') (same : k'.lastUpdate = k.lastUpdate)
  | settled {k : Slot} {t : TaskId} {r : Request} {fs : List Frame} {o : Except Fault Outcome} {u : Update}
      (tick : i = .tick) (running : w.current = some (t, .holding r :: fs, answerSignal o)) (here : r.slot = x)
      (found : w.records[x]? = some k) (later : k.Later k')
      (current : w.isCurrent r.slot r.generation = true) (shown : k'.lastUpdate = some u)
      (isFor : u.IsFor r.slot r.doc r.generation (answerMode o))
  | edited {t : TaskId} {fs : List Frame} {doc : DocId} {text : String} (tick : i = .tick)
      (running : w.current = some (t, fs, .start (.edit doc text))) (here : (w.editBegun doc text).slot = x)
      (of_doc : k'.doc.same doc) (generation : k'.generation = (w.editBegun doc text).generation)
      (pending : ∀ u, k'.pending = some u → (w.editBegun doc text).worker = some u)
      (tasks : ∀ u ∈ k'.tasks, u ∈ w.tasksOf x ∨ (w.editBegun doc text).worker = some u)
      (shows : ∀ name, doc = .name name → ∃ u, k'.lastUpdate = some u ∧
        u.IsFor x name (w.editBegun doc text).generation (firstMode text))

section
variable {w : World} {t : TaskId} {fs : List Frame} {s : Signal} {l : Landing} {ks : List Slot} {x : SlotId}
  {k' : Slot}

theorem modify_record {f : Slot → Slot} {y : SlotId} (found : (ks.modify y f)[x]? = some k') :
    ∃ k, ks[x]? = some k ∧ k' = if y = x then f k else k := by
  rw [List.getElem?_modify] at found
  obtain ⟨k, at_x, rfl⟩ := Option.map_eq_some_iff.1 found
  refine ⟨k, at_x, ?_⟩
  split
  · rfl
  · rfl

theorem seat_of_record {k : Slot} (found : w.records[x]? = some k) : w.seats[x]? = some k.seat := by
  rw [seats_of_records rfl, List.getElem?_map, found]
  rfl

/-- The record of a slot whose document is edited has its new number, the others are as they were. -/
theorem bumped_record (distinct : Distinct w.seats) (doc : DocId) (text : String)
    (found : (w.bumped doc).records[x]? = some k') :
    (w.editBegun doc text).slot = x ∧ k'.doc.same doc ∧ k'.generation = (w.editBegun doc text).generation ∧
      k'.tasks = w.tasksOf x ∨ (w.editBegun doc text).slot ≠ x ∧ w.records[x]? = some k' := by
  by_cases here : (w.editBegun doc text).slot = x
  · obtain ⟨-, -, a, at_slot, -, same, generation⟩ := bumped_seats distinct doc text
    have seat := seat_of_record found
    rw [here] at at_slot
    obtain rfl := Option.some.inj (at_slot.symm.trans seat)
    have tasks := listed_bumped w doc x
    rw [listed, found] at tasks
    exact .inl ⟨here, same, generation, tasks⟩
  · refine .inr ⟨here, ?_⟩
    rw [records_getElem?] at found ⊢
    cases registered : w.slotOf? doc with
    | some s =>
      have other : s ≠ x := by simpa [editBegun, ensureSlot_of_some registered] using here
      simpa [bumped, ensureSlot_of_some registered, modifySlot, other] using found
    | none =>
      have other : w.slots.length ≠ x := by simpa [editBegun, ensureSlot_of_none registered] using here
      simp only [bumped, ensureSlot_of_none registered, modifySlot, gaugeDocuments, Option.map_eq_some_iff] at found
      obtain ⟨k, found, rfl⟩ := found
      obtain ⟨k, at_x, rfl⟩ := modify_record found
      rw [if_neg other]
      rcases getElem?_concat_iff.1 at_x with old | ⟨rfl, -⟩
      · rw [old]
        rfl
      · exact absurd rfl other

theorem Revised.left (found : w.records[x]? = some k') {i : Input} : w.Revised i x k' := .kept found (.refl k') rfl

theorem Next.revised (h : Next w t fs s l ks) (distinct : Distinct w.seats) (running : w.current = some (t, fs, s))
    (found : ks[x]? = some k') : w.Revised .tick x k' := by
  cases h with
  | turn | rests | abandons | called | leaves | drops | lets | breaks => exact .left found
  | @edits _ name text u e begun shown =>
    obtain ⟨k, at_x, rfl⟩ := modify_record found
    subst begun
    rcases bumped_record distinct (.name name) text at_x with ⟨here, same, generation, tasks⟩ | ⟨other, old⟩
    · rw [if_pos here]
      refine .edited rfl running here same generation (fun u eq => eq) (fun u mem => ?_) fun name' eq => ?_
      · rcases List.mem_append.1 mem with old | new
        · exact .inl (tasks ▸ old)
        · exact .inr (Option.mem_toList.1 new)
      · cases eq
        exact ⟨u, rfl, here ▸ shown⟩
    · rw [if_neg other]
      exact .left old
  | @misnamed _ doc text _ unnamed =>
    obtain ⟨k, at_x, rfl⟩ := modify_record found
    rcases bumped_record distinct doc text at_x with ⟨here, same, generation, tasks⟩ | ⟨other, old⟩
    · rw [if_pos here]
      exact .edited rfl running here same generation (by simp) (fun u mem => .inl (tasks ▸ mem))
        fun name eq => absurd eq (unnamed name)
    · rw [if_neg other]
      exact .left old
  | @closes _ doc =>
    rw [records_getElem?] at found
    obtain ⟨k, at_x, rfl⟩ := Option.map_eq_some_iff.1 found
    cases registered : w.slotOf? doc with
    | none =>
      have slots : (w.removeSlot doc).2.slots = w.slots := by
        cases doc <;> simp [removeSlot, registered, gaugeDocuments]
      rw [slots] at at_x
      exact .left (by rw [records_getElem?, at_x]; rfl)
    | some y =>
      have slots : (w.removeSlot doc).2.slots = w.slots.modify y fun k => { k with isOpen := false } := by
        cases doc <;> simp [removeSlot, registered, gaugeDocuments, modifySlot]
      rw [slots] at at_x
      obtain ⟨k, old, rfl⟩ := modify_record at_x
      refine .kept (k := k.unlocked) (by rw [records_getElem?, old]; rfl) ?_ ?_
      · split
        · exact ⟨rfl, rfl, (by intro isOpen; cases isOpen), fun _ => id, fun _ => id⟩
        · exact .refl _
      · split
        · rfl
        · rfl
  | @quieted _ r =>
    obtain ⟨k, at_x, rfl⟩ := modify_record found
    refine .kept at_x ?_ ?_
    · split
      · split
        · exact ⟨rfl, rfl, id, by simp, fun _ => id⟩
        · exact .refl k
      · exact .refl k
    · split
      · split
        · rfl
        · rfl
      · rfl
  | @settles _ r _ o u answered current shown =>
    obtain ⟨k, at_x, rfl⟩ := modify_record found
    by_cases here : r.slot = x
    · rw [if_pos here]
      exact .settled rfl (answered ▸ running) here at_x ⟨rfl, rfl, id, fun _ => id, fun _ => id⟩ current rfl shown
    · rw [if_neg here]
      exact .left at_x

/-- The record of a slot after an input tells what the input was to the slot. -/
theorem Sane.apply_revised (h : w.Sane) (i : Input) (found : (w.apply i).records[x]? = some k') :
    w.Revised i x k' := by
  have happens := w.apply_happens i
  generalize w.apply i = v at *
  cases happens with
  | @moves t fs s running =>
    obtain ⟨y, l, -, next, eq⟩ := h.reaches running
    rw [eq, records_land] at found
    exact next.revised h.distinct running found
  | @resumes t rest =>
    obtain ⟨ks, cur, eq⟩ := resume_eq { w with queue := rest } t
    rw [eq] at found
    exact .left (w := w) found
  | @forgets y u rest =>
    let forget (k : Slot) : Slot := { k with tasks := k.tasks.filter (· != u) }
    have records : (({ w with queue := rest } : World).modifySlot y forget).records = w.records.modify y forget :=
      records_modifySlot (w := { w with queue := rest }) y fun _ => rfl
    rw [records] at found
    obtain ⟨k, old, rfl⟩ := modify_record found
    refine .kept old ?_ ?_
    · split
      · exact ⟨rfl, rfl, id, fun _ => id, fun v mem => (List.mem_filter.1 mem).1⟩
      · exact .refl k
    · split
      · rfl
      · rfl
  | launches | subscribes => exact .left (w := w) found
  | stirs stirred => exact .left (stirred.rest.1 ▸ found)

/-! ### Who waits for quiet -/

theorem bumped_other (distinct : Distinct w.seats) {doc : DocId} {text : String} {k : Slot}
    (found : w.records[x]? = some k)
    (other : (w.editBegun doc text).slot ≠ x) : (w.bumped doc).records[x]? = some k := by
  obtain ⟨ages, -⟩ := bumped_seats distinct doc text
  obtain ⟨a, seat, -⟩ := ages x _ (seat_of_record found)
  rw [seats_of_records rfl, List.getElem?_map] at seat
  obtain ⟨k', at_x, -⟩ := Option.map_eq_some_iff.1 seat
  rcases bumped_record distinct doc text at_x with ⟨here, -⟩ | ⟨-, old⟩
  · exact absurd here other
  · exact at_x.trans (old.symm.trans found)

theorem Next.waits (h : Next w t fs s l ks) (distinct : Distinct w.seats) {k : Slot} {u : TaskId}
    (found : w.records[x]? = some k) (pending : k.pending = some u)
    (edits : ∀ doc text, s = .start (.edit doc text) → (w.editBegun doc text).slot ≠ x)
    (own : ∀ r gs v, fs = .quiet r :: gs → s = .value v → t ≠ u) :
    ∃ k', ks[x]? = some k' ∧ k'.pending = some u ∧ k'.generation = k.generation := by
  have still : ∃ k', w.records[x]? = some k' ∧ k'.pending = some u ∧ k'.generation = k.generation :=
    ⟨k, found, pending, rfl⟩
  cases h with
  | turn | rests | abandons | called | leaves | drops | lets | breaks => exact still
  | @edits _ name text u' e begun =>
    have other : e.slot ≠ x := begun ▸ edits _ _ rfl
    exact ⟨k, by simp [other, bumped_other distinct found (edits _ _ rfl)], pending, rfl⟩
  | misnamed =>
    have other := edits _ _ rfl
    exact ⟨k, by simp [other, bumped_other distinct found other], pending, rfl⟩
  | @closes _ doc =>
    rw [records_getElem?] at found
    obtain ⟨k', at_x, rfl⟩ := Option.map_eq_some_iff.1 found
    cases registered : w.slotOf? doc with
    | none =>
      have slots : (w.removeSlot doc).2.slots = w.slots := by
        cases doc <;> simp [removeSlot, registered, gaugeDocuments]
      exact ⟨_, by rw [records_getElem?, slots, at_x]; rfl, pending, rfl⟩
    | some y =>
      have slots : (w.removeSlot doc).2.slots = w.slots.modify y fun k => { k with isOpen := false } := by
        cases doc <;> simp [removeSlot, registered, gaugeDocuments, modifySlot]
      refine ⟨(if y = x then { k' with isOpen := false } else k').unlocked, ?_, ?_, ?_⟩
      · rw [records_getElem?, slots, List.getElem?_modify, at_x]
        rfl
      · split
        · exact pending
        · exact pending
      · split
        · rfl
        · rfl
  | @quieted _ r =>
    have other : k.pending ≠ some t := by
      rw [pending]
      rintro ⟨rfl⟩
      exact own r _ _ rfl rfl rfl
    exact ⟨k, by simp [List.getElem?_modify, found, other], pending, rfl⟩
  | @settles _ r _ _ u' =>
    refine ⟨if r.slot = x then { k with lastUpdate := some u' } else k, ?_, ?_, ?_⟩
    · simp [List.getElem?_modify, found]
    · split
      · exact pending
      · exact pending
    · split
      · rfl
      · rfl

/-- A task stays registered to wait for quiet until its document is edited or its quiet time is over. -/
theorem Sane.apply_waits (h : w.Sane) (i : Input) {k : Slot} {u : TaskId} (found : w.records[x]? = some k)
    (pending : k.pending = some u)
    (edits : ∀ t fs doc text, i = .tick → w.current = some (t, fs, .start (.edit doc text)) →
      (w.editBegun doc text).slot ≠ x)
    (own : ∀ r fs v, i = .tick → w.current ≠ some (u, .quiet r :: fs, .value v)) :
    ∃ k', (w.apply i).records[x]? = some k' ∧ k'.pending = some u ∧ k'.generation = k.generation := by
  have still : ∃ k', w.records[x]? = some k' ∧ k'.pending = some u ∧ k'.generation = k.generation :=
    ⟨k, found, pending, rfl⟩
  have happens := w.apply_happens i
  generalize w.apply i = v at *
  cases happens with
  | @moves t fs s running =>
    obtain ⟨y, l, -, next, eq⟩ := h.reaches running
    rw [eq, records_land]
    refine next.waits h.distinct found pending (fun doc text start => edits t fs doc text rfl (start ▸ running)) ?_
    rintro r gs v rfl rfl rfl
    exact own r gs v rfl running
  | @resumes t rest =>
    obtain ⟨ks, cur, eq⟩ := resume_eq { w with queue := rest } t
    rw [eq]
    exact still
  | @forgets y t rest =>
    let forget (k : Slot) : Slot := { k with tasks := k.tasks.filter (· != t) }
    have records : (({ w with queue := rest } : World).modifySlot y forget).records = w.records.modify y forget :=
      records_modifySlot (w := { w with queue := rest }) y fun _ => rfl
    refine ⟨if y = x then forget k else k, ?_, ?_, ?_⟩
    · rw [records, List.getElem?_modify, found]
      rfl
    · split
      · exact pending
      · exact pending
    · split
      · rfl
      · rfl
  | launches | subscribes => exact still
  | stirs stirred => exact stirred.rest.1 ▸ still

end
end World
end InkPreview.Live
