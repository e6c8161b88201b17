import InkPreview.Proofs.Live.SingleFlight
/-!
The numbers of edits. Within one opening of a document they run 1, 2, 3 and so on. The next opening
starts again at 1, so that over the life of a document they do not rise. Main statement:
`edits_numbered`.
-/
namespace InkPreview.Live
namespace World
variable {ms : List Mark} {w v : World} {t : TaskId} {fs : List Frame} {s : Signal} {l : Landing}
  {ks : List Slot}

theorem generationOf_seats (w : World) (u : SlotId) :
    w.generationOf u = (w.seats[u]?.map (·.generation)).getD 0 := by
  cases found : w.slots[u]? <;> simp [generationOf, found]

theorem generationOf_same (h : v.seats = w.seats) (u : SlotId) : v.generationOf u = w.generationOf u := by
  rw [generationOf_seats, generationOf_seats, h]

theorem generationOf_ages (h : Ages w.seats v.seats) (u : SlotId) :
    w.generationOf u ≤ v.generationOf u := by
  rw [generationOf_seats, generationOf_seats]
  cases found : w.seats[u]? with
  | none => exact Nat.zero_le _
  | some a =>
    obtain ⟨b, found', -, le, -⟩ := h u a found
    simpa [found'] using le

/-! ### What changes the number of a slot -/

/-- An edit gets the number after the one its slot has. -/
theorem editBegun_next (w : World) (doc : DocId) (text : String) :
    (w.editBegun doc text).generation = w.generationOf (w.editBegun doc text).slot + 1 := by
  cases registered : w.slotOf? doc with
  | some u => simp [editBegun, ensureSlot_of_some registered]
  | none => simp [editBegun, ensureSlot_of_none registered, generationOf, gaugeDocuments, Slot.new]

theorem generationOf_bumped (w : World) (doc : DocId) (text : String) (u : SlotId) :
    (w.bumped doc).generationOf u =
      if u = (w.editBegun doc text).slot then (w.editBegun doc text).generation else w.generationOf u := by
  have changed : ∀ (v : World) (x : SlotId) (n : Nat), x < v.slots.length →
      (v.modifySlot x fun k => { k with generation := n }).generationOf u =
        if u = x then n else v.generationOf u := by
    intro v x n lt
    by_cases here : x = u
    · subst here
      simp [generationOf, modifySlot, lt]
    · simp [generationOf, modifySlot, here, Ne.symm here]
  cases registered : w.slotOf? doc with
  | some x =>
    obtain ⟨a, found, -⟩ := slotOf?_seat registered
    have lt : x < w.slots.length := by
      rw [← seats_length]
      exact (List.getElem?_eq_some_iff.1 found).1
    simp only [bumped, editBegun, ensureSlot_of_some registered]
    exact changed w x _ lt
  | none =>
    let opened : World := { w with slots := w.slots ++ [Slot.new doc] }.gaugeDocuments
    have old : u ≠ w.slots.length → opened.generationOf u = w.generationOf u := by
      intro other
      have same : (w.slots ++ [Slot.new doc])[u]? = w.slots[u]? := by
        rw [List.getElem?_append]
        split
        · rfl
        · rename_i beyond
          have past : w.slots.length < u := Nat.lt_of_le_of_ne (Nat.le_of_not_lt beyond) (Ne.symm other)
          obtain ⟨n, rfl⟩ := Nat.exists_eq_add_of_lt past
          simp [Nat.add_assoc]
      simp only [generationOf, opened, gaugeDocuments, same]
    simp only [bumped, editBegun, ensureSlot_of_none registered]
    rw [changed opened _ _ (by simp [opened, gaugeDocuments])]
    split
    · rfl
    · rename_i other
      exact old other

/-- Only an edit changes the number of a slot. -/
theorem generations_after (w : World) (noEdit : ∀ doc text, s ≠ .start (.edit doc text)) :
    (w.seatsAfter s).map (·.generation) = w.seats.map (·.generation) := by
  unfold seatsAfter
  split
  · exact absurd rfl (noEdit _ _)
  · rename_i doc
    rw [(removeSlot_seats doc).2]
    split
    · rename_i u _
      refine List.ext_getElem? fun i => ?_
      rw [List.getElem?_map, List.getElem?_modify, List.getElem?_map]
      cases w.seats[i]? with
      | none => rfl
      | some a => by_cases here : u = i <;> simp [here]
    · rfl
  · rfl

theorem Sane.apply_generationOf (h : w.Sane) {i : Input} (noEdit : ∀ e, .edited e ∉ w.marks i)
    (u : SlotId) : (w.apply i).generationOf u = w.generationOf u := by
  rcases h.apply_seats i with same | ⟨rfl, t, fs, s, running, after⟩
  · exact generationOf_same same u
  · have noEdit' : ∀ doc text, s ≠ .start (.edit doc text) := by
      rintro doc text rfl
      exact noEdit (w.editBegun doc text) (by simp [marks, mark?, running])
    have at_u := congrArg (fun ns : List Nat => ns[u]?) (generations_after w noEdit')
    rw [generationOf_seats, generationOf_seats, after]
    simp only [List.getElem?_map] at at_u ⊢
    rw [at_u]

/-! ### Numbered edits -/

/-- The edits of every slot have the numbers from one up to that of the slot; two edits of a document
come in the order of their numbers, or the slot of the first has been shut; and no update has been
told with a number that its slot has not reached. -/
structure Numbered (ms : List Mark) (w : World) : Prop where
  counted : ∀ u, (editsOf ms u).map (·.generation) = List.range' 1 (w.generationOf u)
  ordered : ms.Pairwise fun m m' => ∀ e e', m = .edited e → m' = .edited e' → e'.doc.same e.doc →
    e'.slot = e.slot ∧ e.generation < e'.generation ∨ w.IsShut e.slot ∧ e'.slot ≠ e.slot
  told : ∀ i u, .called i u ∈ ms → u.generation ≤ w.generationOf u.slot

theorem IsNew.numbered (new : w.IsNew) : Numbered [] w where
  counted u := by simp [generationOf, new.slots, editsOf]
  ordered := .nil
  told := by simp

/-- An edit of a document follows all edits of the same opening. -/
theorem Numbered.follows (h : Numbered ms w) (sane : w.Sane) (placed : Placed ms w) (doc : DocId)
    (text : String) {e : Edit} (mem : .edited e ∈ ms) (same : doc.same e.doc) :
    (w.editBegun doc text).slot = e.slot ∧ e.generation < (w.editBegun doc text).generation ∨
      w.IsShut e.slot ∧ (w.editBegun doc text).slot ≠ e.slot := by
  obtain ⟨a, at_slot, doc'⟩ := placed e mem
  have reached : e.generation ≤ w.generationOf e.slot := by
    have counts : e.generation ∈ List.range' 1 (w.generationOf e.slot) := by
      rw [← h.counted e.slot]
      exact List.mem_map_of_mem (mem_editsOf.2 ⟨mem, rfl⟩)
    rw [List.mem_range'_1] at counts
    omega
  cases isOpen : a.isOpen with
  | true =>
    have one : a.doc.same doc := by
      simp only [DocId.same, decide_eq_true_eq] at doc' same ⊢
      exact doc'.trans same.symm
    have here : (w.editBegun doc text).slot = e.slot := by
      simp [editBegun, ensureSlot_of_some (slotOf?_eq sane.distinct at_slot isOpen one)]
    refine .inl ⟨here, ?_⟩
    rw [editBegun_next, here]
    omega
  | false =>
    refine .inr ⟨⟨a, at_slot, isOpen⟩, fun here => ?_⟩
    -- The slot that the edit goes to is open afterwards, and no slot is opened twice.
    obtain ⟨ages, -, b, at_b, openAfter, -⟩ := bumped_seats sane.distinct doc text
    obtain ⟨c, at_c, -, -, kept⟩ := ages e.slot a at_slot
    rw [here, at_c] at at_b
    obtain rfl := Option.some.inj at_b
    rw [kept openAfter] at isOpen
    cases isOpen

theorem Numbered.apply (h : Numbered ms w) (sane : w.Sane) (placed : Placed ms w) {i : Input}
    (allowed : i.IsPublic) : Numbered (ms ++ w.marks i) (w.apply i) := by
  obtain ⟨-, ages⟩ := sane.apply allowed
  have shut : ∀ {u : SlotId}, w.IsShut u → (w.apply i).IsShut u := fun shut => shut.mono ages
  have older : ms.Pairwise fun m m' => ∀ e e', m = .edited e → m' = .edited e' → e'.doc.same e.doc →
      e'.slot = e.slot ∧ e.generation < e'.generation ∨ (w.apply i).IsShut e.slot ∧ e'.slot ≠ e.slot := by
    refine h.ordered.imp fun ordered e e' eq eq' same => ?_
    exact (ordered e e' eq eq' same).imp id (And.imp_left shut)
  have toldBefore : ∀ j u, .called j u ∈ ms → u.generation ≤ (w.apply i).generationOf u.slot :=
    fun j u mem => Nat.le_trans (h.told j u mem) (generationOf_ages ages u.slot)
  by_cases edit : ∃ e, .edited e ∈ w.marks i
  · obtain ⟨e, mem⟩ := edit
    obtain rfl : i = .tick := by
      cases i with
      | tick => rfl
      | _ => cases mem
    have marked : w.mark? = some (.edited e) := by simpa [marks] using mem
    obtain ⟨t, fs, doc, text, running, rfl⟩ := mark?_edited marked
    have step : (w.apply .tick).seats = (w.bumped doc).seats := by
      have moved : w.apply .tick = w.beginEdit t fs doc text := tick_running running
      rw [moved, seats_beginEdit]
    have one : w.marks .tick = [.edited (w.editBegun doc text)] := by simp [marks, marked]
    rw [one]
    refine ⟨fun u => ?_, ?_, ?_⟩
    · rw [editsOf_append, List.map_append, h.counted u, generationOf_same step,
        generationOf_bumped w doc text u]
      by_cases here : (w.editBegun doc text).slot = u
      · subst here
        rw [if_pos rfl, editBegun_next, List.range'_1_concat, Nat.add_comm 1]
        simp [editsOf, editBegun_next]
      · simp [editsOf, here, Ne.symm here]
    · refine List.pairwise_append.2 ⟨older, by simp, fun m mem m' last => ?_⟩
      obtain rfl := List.mem_singleton.1 last
      rintro e e' rfl eq same
      obtain rfl : w.editBegun doc text = e' := by simpa using eq
      exact (h.follows sane placed doc text mem same).imp id (And.imp_left shut)
    · intro j u mem
      exact toldBefore j u (by simpa using mem)
  · have noEdit : ∀ e, .edited e ∉ w.marks i := fun e mem => edit ⟨e, mem⟩
    have kept := sane.apply_generationOf noEdit
    refine ⟨fun u => ?_, ?_, ?_⟩
    · have none : editsOf (w.marks i) u = [] := by
        refine List.eq_nil_iff_forall_not_mem.2 fun e mem => ?_
        exact noEdit e (mem_editsOf.1 mem).1
      rw [editsOf_append, none, List.append_nil, h.counted u, kept u]
    · refine List.pairwise_append.2 ⟨older, ?_, ?_⟩
      · refine List.Pairwise.imp_of_mem (R := fun _ _ => True) ?_ (List.pairwise_of_forall fun _ _ => trivial)
        rintro m m' mem - - e e' rfl
        exact absurd mem (noEdit e)
      · rintro m - m' mem e e' - rfl
        exact absurd mem (noEdit e')
    · intro j u mem
      rcases List.mem_append.1 mem with old | new
      · exact toldBefore j u old
      · cases i with
        | tick =>
          have fresh := sane.call_fresh (i := j) (u := u) (by simpa [marks] using new)
          rw [kept]
          exact Nat.le_of_eq fresh.newest.symm
        | _ => cases new

theorem run_numbered (new : w.IsNew) {inputs : List Input} (allowed : ∀ i ∈ inputs, i.IsPublic) :
    Numbered (w.marksAlong inputs) (w.run inputs) := by
  have kept : ∀ (ms : List Mark) (v : World) (i : Input),
      v.Sane ∧ Placed ms v ∧ Numbered ms v → i.IsPublic → (v.apply i).Sane ∧
        Placed (ms ++ v.marks i) (v.apply i) ∧ Numbered (ms ++ v.marks i) (v.apply i) :=
    fun ms v i h given =>
      ⟨(h.1.apply given).sane, h.1.apply_placed h.2.1 given, h.2.2.apply h.1 h.2.1 given⟩
  have first : w.Sane ∧ Placed [] w ∧ Numbered [] w := ⟨new.sane, fun _ => nofun, new.numbered⟩
  exact (run_induct (I := fun ms v => v.Sane ∧ Placed ms v ∧ Numbered ms v) kept first inputs
    allowed).2.2

/-- After every run: the edits of one opening of a document have the generations 1, 2, 3 and so on;
of two edits of a document the later one has the higher generation, unless the opening of the earlier
one has been shut; and no update of an opening has been told with a generation above that of its
newest edit. -/
theorem edits_numbered {start : World} (new : start.IsNew) {inputs : List Input}
    (allowed : ∀ i ∈ inputs, i.IsPublic) :
    (∀ s, (editsOf (start.marksAlong inputs) s).map (·.generation) =
      List.range' 1 (editsOf (start.marksAlong inputs) s).length) ∧
    ((start.marksAlong inputs).Pairwise fun m m' => ∀ e e', m = .edited e → m' = .edited e' →
      e'.doc.same e.doc → e'.slot = e.slot ∧ e.generation < e'.generation ∨
        (start.run inputs).IsShut e.slot ∧ e'.slot ≠ e.slot) ∧
    ∀ i u, .called i u ∈ start.marksAlong inputs →
      u.generation ≤ (editsOf (start.marksAlong inputs) u.slot).length := by
  obtain ⟨counted, ordered, told⟩ := run_numbered new allowed
  have length : ∀ s, (editsOf (start.marksAlong inputs) s).length = (start.run inputs).generationOf s := by
    intro s
    have := congrArg List.length (counted s)
    simpa using this
  refine ⟨fun s => ?_, ordered, fun i u mem => ?_⟩
  · rw [length, counted s]
  · rw [length]
    exact told i u mem

/-- Two edits of a document, a closing, and one more edit. -/
def reopening : List Input :=
  [Input.begin (.edit (.name "a") "")] ++ List.replicate 5 Input.tick ++ [Input.begin (.edit (.name "a") "{}")] ++
    List.replicate 5 Input.tick ++ [Input.begin (.close (.name "a"))] ++ List.replicate 2 Input.tick ++
    [Input.begin (.edit (.name "a") "")] ++ List.replicate 5 Input.tick

theorem isPublic_reopening : ∀ i ∈ reopening, i.IsPublic := by
  simp [reopening, Input.IsPublic, Op.IsPublic.edit, Op.IsPublic.close, or_imp, forall_and]

/-- The first two edits of a document in the small editor. -/
theorem reopened_numbers : (editsOf (sample.marksAlong reopening) 0).map (·.generation) = [1, 2] := by
  obtain ⟨counted, -⟩ := edits_numbered isNew_sample isPublic_reopening
  rw [counted 0]
  rfl

/-- After a closing the numbers of a document start over: its last edit has a lower generation than
the one before, and so has its last update. -/
theorem numbers_start_over :
    (sample.marksAlong reopening).filterMap (fun m =>
      match m with
      | .edited e => some (e.doc, e.generation)
      | _ => none) = [(.name "a", 1), (.name "a", 2), (.name "a", 1)] ∧
    (sample.marksAlong reopening).filterMap (fun m =>
      match m with
      | .called _ u => some (u.doc, u.generation)
      | _ => none) = [("a", 1), ("a", 2), ("a", 1)] := ⟨rfl, rfl⟩

end World
end InkPreview.Live
