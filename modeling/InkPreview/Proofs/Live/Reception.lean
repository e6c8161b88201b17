import InkPreview.Proofs.Live.Telling
/-!
What subscribers have received. The update that an open document shows has been announced, and once nobody tells of it
any more every subscriber registered at its announcement has been called with it. Main statement: `display_received`.
-/
namespace InkPreview.Live
namespace World
variable {w : World} {ms : List Mark} {b : Bench} {t t' : TaskId} {x : SlotId} {fs base base' : List Frame} {k : Slot}
  {y y' : Update} {name : String}

/-! ### What is shown is announced -/

/-- The update that an edit shows at first is the one that subscribers begin to be told of. -/
theorem Sane.edit_announces (h : w.Sane) {text : String}
    (running : w.current = some (t, fs, .start (.edit (.name name) text)))
    (found : w.tick.records[(w.editBegun (.name name) text).slot]? = some k) :
    ∃ y base, k.lastUpdate = some y ∧ w.Announces t y base := by
  obtain ⟨v, l, -, next, eq⟩ := h.reaches running
  have step : w.tick = v.land t l := (tick_running running).trans eq
  rw [step, records_land] at found
  generalize v.records = ks at next found
  cases next with
  | turn aside => exact absurd rfl (aside.2.1 _ _)
  | misnamed unnamed => exact absurd rfl (unnamed name)
  | drops ends => exact ends.elim
  | settles answered =>
    rename_i o _ _ _
    have ends := answerSignal_end o
    rw [← answered] at ends
    exact ends.elim
  | edits begun =>
    subst begun
    obtain ⟨k', -, rfl⟩ := modify_record found
    rw [if_pos rfl]
    exact ⟨_, _, rfl, _, _, running, .edit, by rw [step, land_current]; rfl⟩

/-- So is the update that an answer shows. -/
theorem Sane.answer_announces (h : w.Sane) {r : Request} {o : Except Fault Outcome}
    (running : w.current = some (t, .holding r :: fs, answerSignal o))
    (current : w.isCurrent r.slot r.generation = true) (found : w.tick.records[r.slot]? = some k) :
    ∃ y, k.lastUpdate = some y ∧ w.Announces t y fs := by
  obtain ⟨v, l, -, next, eq⟩ := h.reaches running
  have step : w.tick = v.land t l := (tick_running running).trans eq
  obtain ⟨u, -, rfl, recorded⟩ := next.settled current
  rw [step, records_land, recorded] at found
  obtain ⟨k', -, rfl⟩ := modify_record found
  rw [if_pos rfl]
  exact ⟨u, rfl, _, _, running, .answer, by rw [step, land_current]; rfl⟩

/-- In every run: what is recorded for a document with a name is an update of the newest generation of the slot, which
has been announced. -/
theorem run_displayed (new : w.IsNew) {inputs : List Input} (allowed : ∀ i ∈ inputs, i.IsPublic)
    (found : (w.run inputs).records[x]? = some k) (named : k.doc = .name name) :
    ∃ y before after t base, k.lastUpdate = some y ∧ (y.slot = x ∧ y.doc = name ∧ y.generation = k.generation) ∧
      inputs = before ++ .tick :: after ∧ (w.run before).Announces t y base := by
  induction inputs using List.reverseRecOn generalizing k with
  | nil => simp [records, World.run, new.slots] at found
  | append_singleton xs i ih =>
    have given : ∀ j ∈ xs, j.IsPublic := fun j mem => allowed j (List.mem_append_left _ mem)
    have sane := (new.sane.run given).sane
    have now : w.run (xs ++ [i]) = (w.run xs).apply i := by simp [World.run]
    rw [now] at found
    have seated : Serves ((w.run xs).apply i).seats x name := ⟨_, seat_of_record found, named⟩
    cases sane.apply_revised i found with
    | kept old later same =>
      obtain ⟨y, before, after, t, base, last, ⟨slot, doc, generation⟩, rfl, announces⟩ :=
        ih given old (later.doc.symm.trans named)
      exact ⟨y, before, after ++ [i], t, base, same.trans last, ⟨slot, doc, generation.trans later.generation.symm⟩,
        by simp, announces⟩
    | @settled k₀ t r fs o y tick running here old later current shown isFor =>
      subst tick here
      obtain ⟨y', last, announces⟩ := sane.answer_announces running current found
      obtain rfl := Option.some.inj (shown.symm.trans last)
      obtain ⟨a, seat, doc⟩ := (sane.running _ _ _ running).1.top
      obtain rfl := Option.some.inj ((seat_of_record old).symm.trans seat)
      obtain ⟨a, seat', -, generation⟩ := isCurrent_iff.1 current
      obtain rfl := Option.some.inj ((seat_of_record old).symm.trans seat')
      refine ⟨y, xs, [], t, fs, shown, ⟨isFor.slot, ?_, ?_⟩, rfl, announces⟩
      · have same : DocId.name r.doc = .name name := doc.symm.trans (later.doc.symm.trans named)
        exact isFor.doc.trans (DocId.name.inj same)
      · exact isFor.generation.trans (generation.symm.trans later.generation.symm)
    | @edited t fs doc text tick running here of_doc generation _ _ shows =>
      subst tick here
      obtain rfl : doc = .name name := name_eq_of_same (named ▸ of_doc)
      obtain ⟨y, shown, isFor⟩ := shows name rfl
      obtain ⟨y', base, last, announces⟩ := sane.edit_announces running found
      obtain rfl := Option.some.inj (shown.symm.trans last)
      exact ⟨y, xs, [], t, base, shown, ⟨isFor.slot, isFor.doc, isFor.generation.trans generation.symm⟩, rfl, announces⟩

/-! ### What has been received -/

/-- An update that counts before and after counts in between. -/
theorem isCurrent_between {v x : World} (first : Ages w.seats v.seats) (second : Ages v.seats x.seats)
    {s : SlotId} {g : Nat}
    (before : w.isCurrent s g = true) (after : x.isCurrent s g = true) : v.isCurrent s g = true := by
  obtain ⟨a, at_slot, -, low⟩ := isCurrent_iff.1 before
  obtain ⟨c, at_slot'', isOpen, high⟩ := isCurrent_iff.1 after
  obtain ⟨d, at_slot', -, le, -⟩ := first s a at_slot
  obtain ⟨c', found, -, le', kept⟩ := second s d at_slot'
  obtain rfl := Option.some.inj (found.symm.trans at_slot'')
  exact isCurrent_iff.2 ⟨d, at_slot', kept isOpen, by omega⟩

/-- An update that counts is that of its document, and a subscriber called for the document is
called in its generation. -/
theorem Sane.call_current (h : w.Sane) (serves : Serves w.seats y.slot y.doc)
    (current : w.isCurrent y.slot y.generation = true)
    {j : Nat} (marked : w.mark? = some (.called j y')) (same : y'.doc = y.doc) :
    y'.slot = y.slot ∧ y'.generation = y.generation := by
  obtain ⟨a, at_slot, isOpen, generation⟩ := isCurrent_iff.1 current
  obtain ⟨a', at_slot', named⟩ := serves
  obtain rfl := Option.some.inj (at_slot.symm.trans at_slot')
  have fresh := h.call_fresh marked
  have registered : w.slotOf? (.name y.doc) = some y.slot :=
    slotOf?_eq h.distinct at_slot isOpen (by simp [named, DocId.same])
  have here : y'.slot = y.slot := by
    have registered' := fresh.registered
    rw [same, registered] at registered'
    exact (Option.some.inj registered').symm
  refine ⟨here, ?_⟩
  rw [← fresh.newest, here, generationOf_seats, at_slot]
  simpa using generation

theorem Sourced.run (sourced : Sourced ms w y) (flight : Flight ms b w) {inputs : List Input}
    (allowed : ∀ i ∈ inputs, i.IsPublic) : Sourced (ms ++ w.marksAlong inputs) (w.run inputs) y := by
  induction inputs generalizing w ms with
  | nil => simpa [marksAlong, World.run] using sourced
  | cons i rest ih =>
    have given := allowed i List.mem_cons_self
    have later := ih (sourced.apply flight given) (flight.apply given) fun j mem => allowed j (List.mem_cons_of_mem i mem)
    simpa [marksAlong, World.run] using later

/-- What is announced once more in one generation was pending first, and is not any more. -/
theorem Flight.announces_again (h : Flight ms b w) (sourced : Sourced ms w y) (announces : w.Announces t y' base)
    (slot : y'.slot = y.slot) (generation : y'.generation = y.generation) : y.mode = .pending ∧ y'.mode ≠ .pending := by
  have late : ∀ {name text : String} {e e' : Edit}, e = w.editBegun (.name name) text → y'.slot = e.slot →
      y'.generation = e.generation → .edited e' ∈ ms → e'.slot = y.slot → e'.generation ≠ y.generation := by
    rintro name text e e' rfl slot' generation' mem here same
    have lower := h.edit_late mem (here.trans (slot.symm.trans slot'))
    omega
  have announced := h.announced announces
  cases sourced with
  | @edit e mem slot₁ generation₁ mode =>
    cases announced with
    | edit _ begun shown => exact absurd generation₁ (late begun shown.slot shown.generation mem slot₁)
    | @answer r o running _ shown =>
      obtain ⟨-, mine, -⟩ := (h.stage (h.post?_running running)).at_holding
      obtain ⟨e', mem', worker, slot', -, generation', -⟩ := mine
      have same : e = e' := by
        refine (h.booked.rising e.slot).eq (mem_editsOf.2 ⟨mem, rfl⟩) (mem_editsOf.2 ⟨mem', ?_⟩) ?_
        · exact slot'.trans (shown.slot.symm.trans (slot.trans slot₁.symm))
        · exact generation₁.trans (generation.symm.trans (shown.generation.trans generation'.symm))
      refine ⟨mode.trans (firstMode_pending (h.booked.needed e t mem (same ▸ worker))), ?_⟩
      rw [shown.mode]
      exact answerMode_ne_pending o
  | @answer u r mine slot₁ generation₁ mode ceased =>
    cases announced with
    | edit _ begun shown =>
      obtain ⟨e', mem', -, slot', -, generation', -⟩ := mine
      exact absurd (generation'.trans generation₁) (late begun shown.slot shown.generation mem' (slot'.trans slot₁))
    | @answer r' o _ _ shown =>
      refine absurd ?_ (h.announces_new announces)
      refine .answer mine (slot₁.trans slot.symm) (generation₁.trans generation.symm) ?_ ceased
      rw [shown.mode]
      exact answerMode_ne_pending o

/-- In every run: of two updates of one generation that are announced, the first is pending and the
second is not. The update that an open document shows is of its newest generation and has been
announced. Once no task tells of it any more, all subscribers registered at the announcement have
been called with it, in order and each once, unless the task that told them has been cancelled over
it; and every later call for the document has been in the same generation. -/
theorem display_received {start : World} (new : start.IsNew) {inputs : List Input}
    (allowed : ∀ i ∈ inputs, i.IsPublic) :
    (∀ before mid after t t' y y' base base', inputs = before ++ .tick :: mid ++ .tick :: after →
      (start.run before).Announces t y base → (start.run (before ++ .tick :: mid)).Announces t' y' base' →
        y'.slot = y.slot → y'.generation = y.generation → y.mode = .pending ∧ y'.mode ≠ .pending) ∧
    ∀ name y, (start.run inputs).lastUpdate? (.name name) = some y →
      y.generation = (start.run inputs).latestGeneration (.name name) ∧
      ∃ before after t base, inputs = before ++ .tick :: after ∧ (start.run before).Announces t y base ∧
        ((∀ u, unheard y ((start.run inputs).stackOf u) = []) →
          callsOf (start.marksAlong inputs) y = List.range (start.run before).subscribers.length ∨
          ∃ xs ys js, after = xs ++ .tick :: ys ∧
            (start.run (before ++ .tick :: xs)).current = some (t, .notifying y js :: base, .cancelled)) ∧
        ∀ xs ys j v, after = xs ++ .tick :: ys → (start.run (before ++ .tick :: xs)).mark? = some (.called j v) →
          v.doc = name → v.slot = y.slot ∧ v.generation = y.generation := by
  constructor
  · rintro before mid after t t' y y' base base' rfl announces announces' slot generation
    have given : ∀ i ∈ before, i.IsPublic := fun i mem => allowed i (by simp [mem])
    have given' : ∀ i ∈ mid, i.IsPublic := fun i mem => allowed i (by simp [mem])
    have flight := run_flight new given
    have next : Flight _ _ (start.run before).tick := flight.apply (i := .tick) trivial
    have sourced := (flight.announces_sourced announces).run next given'
    have here : start.run (before ++ .tick :: mid) = (start.run before).tick.run mid := by simp [World.run, World.apply]
    rw [here] at announces'
    exact (next.run given').announces_again sourced announces' slot generation
  · intro name y shown
    obtain ⟨x, registered, last⟩ := Option.bind_eq_some_iff.1 shown
    obtain ⟨k, found, isOpen, named⟩ := slotOf?_record registered
    have record : (start.run inputs).records[x]? = some k.unlocked := by simp [found]
    obtain ⟨y', before, after, t, base, last', ⟨rfl, doc, generation⟩, rfl, announces⟩ :=
      run_displayed new allowed record named
    obtain rfl : y = y' := by
      rw [found] at last
      exact Option.some.inj (last.symm.trans last')
    have counts : (start.run (before ++ .tick :: after)).isCurrent y.slot y.generation = true :=
      generation ▸ isCurrent_of_record record isOpen
    have given : ∀ i ∈ before, i.IsPublic := fun i mem => allowed i (by simp [mem])
    have flight := run_flight new given
    have next := flight.sane.tick
    obtain ⟨current, serves⟩ := flight.announces_current announces
    have between : ∀ xs ys, after = xs ++ ys → (start.run (before ++ .tick :: xs)).Sane ∧
        Serves (start.run (before ++ .tick :: xs)).seats y.slot y.doc ∧
          (start.run (before ++ .tick :: xs)).isCurrent y.slot y.generation = true := by
      rintro xs ys rfl
      have given' : ∀ i ∈ xs, i.IsPublic := fun i mem => allowed i (by simp [mem])
      have given'' : ∀ i ∈ ys, i.IsPublic := fun i mem => allowed i (by simp [mem])
      have first := next.sane.run given'
      have second := first.sane.run given''
      have here : start.run (before ++ .tick :: xs) = (start.run before).tick.run xs := by simp [World.run, World.apply]
      have there : start.run (before ++ .tick :: (xs ++ ys)) = ((start.run before).tick.run xs).run ys := by
        simp [World.run, World.apply]
      rw [here]
      exact ⟨first.sane, serves.mono first.ages, isCurrent_between first.ages second.ages current (there ▸ counts)⟩
    refine ⟨?_, before, after, t, base, rfl, announces, fun silent => ?_, ?_⟩
    · simp [latestGeneration, registered, generationOf, found, generation, Slot.unlocked]
    · rcases run_telling new allowed announces with telling | ⟨xs, ys, rfl, calls, telling, ceases⟩
      · obtain ⟨more, js, stack, -⟩ := telling.under
        have told := silent t
        rw [stack, unheard_append, unheard_told] at told
        simp at told
      · cases ceases with
        | back calm =>
          rcases calm with all | stale
          · exact .inl (calls.trans all)
          · rw [(between xs _ rfl).2.2] at stale
            cases stale
        | stopped running => exact .inr ⟨xs, ys, _, rfl, running⟩
    · rintro xs ys j v course marked same
      obtain ⟨sane, serves', counts'⟩ := between xs _ course
      exact sane.call_current serves' counts' marked (same.trans doc.symm)

/-- What the small editor shows after its edit has been announced. -/
theorem editing_received : ∃ y before t base, (sample.run (editing "" 9)).lastUpdate? (.name "a") = some y ∧
    y.generation = 1 ∧ (sample.run before).Announces t y base := by
  obtain ⟨y, shown⟩ : ∃ y, (sample.run (editing "" 9)).lastUpdate? (.name "a") = some y := ⟨_, rfl⟩
  obtain ⟨generation, before, -, t, base, -, announces, -⟩ :=
    (display_received isNew_sample (isPublic_editing "" 9)).2 "a" y shown
  exact ⟨y, before, t, base, shown, generation, announces⟩

/-! ### What is not promised -/

/-- Like `sample`, with a subscriber that takes its time on the first call only, and one that does nothing. -/
def slowAtFirst : World :=
  start ⟨0, .whole 0, false, fun _ => ⟨none, none, 0, 0, [], .missing, false, none⟩⟩ ⟨.ok none, []⟩ (.new "")
    [.script fun n => if n = 1 then [.wait 100] else [], .script fun _ => []]

/-- A document is edited and closed. -/
def dismissing : List Input := editing "" 9 ++ .begin (.close (.name "a")) :: List.replicate 9 .tick

/-- The slow call ends after everything else has been done. -/
def overtaking : List Input := editing "Hi" 30 ++ .jump :: List.replicate 10 .tick

/-- With nothing at work any more, the last call of a subscriber need not be with what is shown. The
document is open, and the second subscriber was called with the answer to its edit before it was
called with the pending update of the same generation, which the first subscriber held up. A
document that has been closed shows nothing at all. -/
theorem last_call_differs :
    (∃ y y', (slowAtFirst.marksAlong overtaking).filterMap
        (fun m => match m with | .called 1 v => some v | _ => none) = [y', y] ∧
      y'.slot = y.slot ∧ y'.generation = y.generation ∧ y.mode = .pending ∧ y'.mode ≠ .pending ∧
      (slowAtFirst.run overtaking).isQuiescent = true ∧ (slowAtFirst.run overtaking).tasks.all (·.ended) = true ∧
      (slowAtFirst.run overtaking).lastUpdate? (.name "a") = some y') ∧
    ∃ e y, sample.marksAlong dismissing = [.edited e, .called 0 y] ∧ y.doc = "a" ∧
      (sample.run dismissing).isQuiescent = true ∧ (sample.run dismissing).tasks.all (·.ended) = true ∧
      (sample.run dismissing).lastUpdate? (.name "a") = none := by
  refine ⟨⟨_, _, rfl, rfl, rfl, rfl, ?_, rfl, rfl, rfl⟩, _, _, rfl, rfl, rfl, rfl, rfl⟩
  decide

end World
end InkPreview.Live
