import InkPreview.Proofs.Live.Carriers
import InkPreview.Proofs.Live.Numbering
import Mathlib.Logic.ExistsUnique
/-!
Convergence. In a gentle run no edit is lost: an open document shows what the text of its newest edit
settles on, or shows that edit as pending while the task of the edit carries it. Main statement:
`edits_converge`.
-/
namespace InkPreview.Live

/-- The edits of a document, oldest first. -/
def editsTo (ms : List Mark) (doc : DocId) : List Edit :=
  ms.filterMap fun m =>
    match m with
    | .edited e => if e.doc.same doc then some e else none
    | _ => none

theorem mem_editsTo {ms : List Mark} {doc : DocId} {e : Edit} :
    e ∈ editsTo ms doc ↔ .edited e ∈ ms ∧ e.doc.same doc = true :=
  mem_editsWhere (p := fun e => e.doc.same doc = true)

/-- What the text of an edit settles on: what it is without a compile, or what the compile that the task
of the edit has run on it has come to. -/
inductive Settles (ms : List Mark) (e : Edit) : Mode → Prop
  | plain {m : Mode} (kind : classify e.text = some m) : Settles ms e m
  | compiled {t : TaskId} {name : String} {time : Nat} {o : Except Fault Outcome} (own : e.worker = some t)
      (started : .started time t ⟨e.slot, name, e.generation, e.text⟩ e.text ∈ ms)
      (ended : .ended t ⟨e.slot, name, e.generation, e.text⟩ o ∈ ms) : Settles ms e (answerMode o)

namespace Settles
variable {ms ms' : List Mark} {e : Edit} {m : Mode}

theorem mono (h : Settles ms e m) (more : ∀ x ∈ ms, x ∈ ms') : Settles ms' e m := by
  cases h with
  | plain kind => exact .plain kind
  | compiled own started ended => exact .compiled own (more _ started) (more _ ended)

end Settles

theorem answerMode_ne_pending (o : Except Fault Outcome) : answerMode o ≠ .pending := by
  rcases o with f | story | ⟨k, m⟩
  · simp [answerMode, Mode.compilerError, Mode.pending]
  · simp [answerMode, Mode.compiled, Mode.pending]
  · simp [answerMode, Mode.compilerError, Mode.pending]

theorem classify_ne_pending (text : String) : classify text ≠ some .pending := by
  unfold classify
  split
  · simp [Mode.empty, Mode.pending]
  · split
    · simp [Mode.passthrough, Mode.pending]
    · simp

/-- What an edit settles on is never that it is pending. -/
theorem Settles.not_pending {ms : List Mark} {e : Edit} {m : Mode} (h : Settles ms e m) : m ≠ .pending := by
  cases h with
  | plain kind =>
    rintro rfl
    exact classify_ne_pending _ kind
  | compiled => exact answerMode_ne_pending _

namespace World
variable {ms : List Mark} {b : Bench} {w : World} {t u : TaskId} {x : SlotId} {fs : List Frame} {r : Request}

theorem isCurrent_of_record {k : Slot} (found : w.records[x]? = some k) (isOpen : k.isOpen = true) :
    w.isCurrent x k.generation = true := isCurrent_iff.2 ⟨k.seat, seat_of_record found, isOpen, rfl⟩

theorem mark?_ended {o : Except Fault Outcome} (running : w.current = some (t, .holding r :: fs, answerSignal o)) :
    w.mark? = some (.ended t r o) := by
  cases o with
  | ok o => simp [mark?, running, answerSignal]
  | error f => simp [mark?, running, answerSignal]

/-- The answer of a compile for an edit that counts is recorded and told. -/
theorem Next.settled {l : Landing} {ks : List Slot} {o : Except Fault Outcome}
    (h : Next w t (.holding r :: fs) (answerSignal o) l ks) (current : w.isCurrent r.slot r.generation = true) :
    ∃ u, Update.IsFor u r.slot r.doc r.generation (answerMode o) ∧
      l = .go (.notifying u (List.range w.subscribers.length) :: fs) (.value .unit) ∧
      ks = w.records.modify r.slot fun k => { k with lastUpdate := some u } := by
  have ends := answerSignal_end o
  generalize answered : answerSignal o = s at h ends
  cases h with
  | turn aside => cases aside.plain ends
  | settles answered' _ shown =>
    obtain rfl := answerSignal_inj (answered.trans answered')
    exact ⟨_, shown, rfl, rfl⟩
  | drops _ _ stale =>
    rcases stale with never | stale
    · exact absurd answered.symm (never o)
    · simp [stale] at current
  | lets => cases o <;> cases answered
  | breaks h => rcases h with h | h <;> cases h
  | edits | misnamed | closes | rests => exact ends.elim

theorem Sane.tick_settles (h : w.Sane) {o : Except Fault Outcome}
    (running : w.current = some (t, .holding r :: fs, answerSignal o))
    (current : w.isCurrent r.slot r.generation = true) : ∃ u, Update.IsFor u r.slot r.doc r.generation (answerMode o) ∧
      w.tick.records = w.records.modify r.slot fun k => { k with lastUpdate := some u } := by
  obtain ⟨v, l, -, next, eq⟩ := h.reaches running
  have records : w.tick.records = v.records := by rw [tick_running running, eq, records_land]
  obtain ⟨u, shown, -, recorded⟩ := next.settled current
  exact ⟨u, shown, records.trans recorded⟩

/-- The running task has the answer for the edit that it works for. -/
theorem Flight.answered (h : Flight ms b w) {o : Except Fault Outcome}
    (running : w.current = some (t, .holding r :: fs, answerSignal o)) :
    Mine ms t r ∧ ∃ time, .started time t r r.text ∈ ms := by
  have stage := h.stage (h.post?_running running)
  refine ⟨stage.at_holding.2.1, ?_⟩
  rcases (stage.holds List.mem_cons_self).2.2 with eq | started
  · have begins : answerSignal o = .start (.compile r.text) := congrArg Post.signal eq
    have ends := answerSignal_end o
    rw [begins] at ends
    exact ends.elim
  · exact started

/-! ### What open documents show -/

/-- The update is that of the edit, settled or pending with someone to carry it. -/
def Upholds (ms : List Mark) (w : World) (e : Edit) (name : String) (u : Update) : Prop :=
  u.IsFor e.slot name e.generation u.mode ∧ (Settles ms e u.mode ∨ u.mode = .pending ∧
    ∃ t, e.worker = some t ∧ w.Carrier t ⟨e.slot, name, e.generation, e.text⟩)

/-- Every open slot of a document with a name shows its newest edit. -/
def Converging (ms : List Mark) (w : World) : Prop :=
  ∀ x k name, w.records[x]? = some k → k.isOpen = true → k.doc = .name name →
    ∃ e u, .edited e ∈ ms ∧ e.slot = x ∧ e.doc = .name name ∧ e.generation = k.generation ∧
      k.lastUpdate = some u ∧ Upholds ms w e name u

theorem Unharmed.calm (h : w.Unharmed t) {q : Post} (found : w.post? t = some q) (flight : Flight ms b w) :
    q.signal ≠ .cancelled := by
  by_cases runs : ∃ fs s, w.current = some (t, fs, s)
  · obtain ⟨fs, s, running⟩ := runs
    obtain rfl := Option.some.inj (found.symm.trans (flight.post?_running running))
    exact (h.running fs s running).2
  · obtain ⟨k, at_t, hale⟩ := h.task
    rw [post?_other fun fs s running => runs ⟨fs, s, running⟩, at_t] at found
    obtain rfl := Option.some.inj found
    exact hale.signal

theorem Carries.out (h : w.Carries t r) (flight : Flight ms b w) : w.hasEnded t = false := by
  obtain ⟨q, found, -, out⟩ := h.post
  obtain ⟨k, at_t, -⟩ := h.unharmed.task
  have wait : k.wait ≠ .ended := by
    by_cases runs : ∃ fs s, w.current = some (t, fs, s)
    · obtain ⟨k', at_t', runs⟩ := (flight.steady.midst.agrees t).2 runs
      obtain rfl := Option.some.inj (at_t.symm.trans at_t')
      simp [runs]
    · rw [post?_other fun fs s running => runs ⟨fs, s, running⟩, at_t] at found
      obtain rfl := Option.some.inj found
      exact out
  simp [hasEnded, at_t, Task.ended, wait]

/-- A task that carries the request of an edit is listed in the slot of the edit, and has that duty. -/
theorem Carries.listed (h : w.Carries t r) (flight : Flight ms b w) (roster : Roster ms w) {e : Edit}
    (edit : .edited e ∈ ms) (worker : e.worker = some t) : t ∈ w.tasksOf e.slot := by
  rcases roster e.slot t ⟨e, edit, rfl, worker⟩ with mem | ended
  · exact mem
  · rw [h.out flight] at ended
    cases ended

theorem Gentle.duty_of_listed (h : w.Gentle) (mem : t ∈ w.tasksOf x) : w.HasDuty t (.edit x) := by
  rw [← listed_records, World.listed] at mem
  cases found : w.records[x]? with
  | none => simp [found] at mem
  | some k => exact h.employed x k t found (.inr (by simpa [found] using mem))

/-- The task of an edit that has just begun carries its request. -/
theorem Flight.edit_carried (h : Flight ms b w) {name text : String}
    (running : w.current = some (u, fs, .start (.edit (.name name) text)))
    (worker : (w.editBegun (.name name) text).worker = some t) :
    w.tick.Carrier t ⟨(w.editBegun (.name name) text).slot, name,
      (w.editBegun (.name name) text).generation, text⟩ := by
  have task : (w.beginEdit u fs (.name name) text).tasks[t]? = _ := beginEdit_hired worker
  obtain ⟨v, l, -, -, eq⟩ := h.sane.reaches running
  have step : w.tick = w.beginEdit u fs (.name name) text := tick_running running
  have new : t ≠ u := by
    have there := h.there running
    have last : w.tasks.length = t := by
      simp only [editBegun, workerFor] at worker
      split at worker
      · exact Option.some.inj worker
      · cases worker
    exact last ▸ Nat.ne_of_gt there
  have idle : ∀ gs s, w.tick.current ≠ some (t, gs, s) := by
    intro gs s now
    have eq' : w.tick = v.land u l := step.trans eq
    rw [eq', land_current] at now
    exact new (Landing.now_eq now).1
  rw [← step] at task
  have post : w.tick.post? t = _ := (post?_other idle).trans (congrArg (Option.map Task.post) task)
  refine ⟨⟨⟨⟨_, task, rfl, by simp, by simp, by simp⟩, fun gs s now => absurd now (idle gs s)⟩,
    _, post, rfl, by simp [Task.post]⟩, fun q p f found mem => ?_⟩
  obtain rfl := Option.some.inj (post.symm.trans found)
  cases mem

/-- Whatever happens gently, the open documents go on to show their newest edits. -/
theorem Converging.apply (h : Converging ms w) (flight : Flight ms b w) (gentle : w.Gentle) (roster : Roster ms w)
    {i : Input} (allowed : i.IsPublic) (soft : i.IsGentle) : Converging (ms ++ w.marks i) (w.apply i) := by
  intro x k' name found isOpen named
  cases flight.sane.apply_revised i found with
  | @kept k at_x later same =>
    obtain ⟨e, u, edit, rfl, doc, generation, last, isFor, shows⟩ :=
      h x k name at_x (later.isOpen isOpen) (later.doc ▸ named)
    refine ⟨e, u, List.mem_append_left _ edit, rfl, doc, generation.trans later.generation.symm,
      same.trans last, isFor, ?_⟩
    rcases shows with settles | ⟨pending, t, worker, carrier⟩
    · exact .inl (settles.mono fun _ => List.mem_append_left _)
    · refine .inr ⟨pending, t, worker, ?_⟩
      have before := isCurrent_of_record at_x (later.isOpen isOpen)
      have after := isCurrent_of_record found isOpen
      rw [later.generation] at after
      have duty := gentle.duty_of_listed (carrier.carries.listed flight roster edit worker)
      rcases carrier.apply flight gentle duty allowed soft (generation ▸ before) (generation ▸ after) with
        carrier' | ⟨rfl, o, running⟩
      · exact carrier'
      · -- the answer would be recorded
        obtain ⟨u', isFor', records⟩ := flight.sane.tick_settles running (generation ▸ before)
        have shown : k'.lastUpdate = some u' := by
          have at_x' := found
          rw [show w.apply .tick = w.tick from rfl, records, List.getElem?_modify, at_x] at at_x'
          obtain rfl := Option.some.inj at_x'
          simp
        obtain rfl := Option.some.inj (shown.symm.trans (same.trans last))
        exact absurd (isFor'.mode.symm.trans pending) (answerMode_ne_pending o)
  | @settled k t r fs o u tick running here at_x later current shown isFor =>
    subst tick here
    obtain ⟨⟨e, edit, worker, slot, doc, generation, text⟩, time, started⟩ := flight.answered running
    have marked : w.marks .tick = [.ended t r o] := by simp [marks, mark?_ended running]
    have serves : r.doc = name := by
      obtain ⟨a, seat, of_a⟩ : Serves w.seats r.slot r.doc := (flight.sane.running _ _ _ running).1.top
      obtain rfl := Option.some.inj (seat.symm.trans (seat_of_record at_x))
      exact DocId.name.inj (of_a.symm.trans (later.doc.symm.trans named))
    have newest : r.generation = k.generation := by
      obtain ⟨a, seat, -, of_a⟩ := isCurrent_iff.1 current
      obtain rfl := Option.some.inj (seat.symm.trans (seat_of_record at_x))
      exact of_a.symm
    subst serves
    obtain ⟨slot', doc', generation', text'⟩ := r
    obtain rfl : e.slot = slot' := slot
    obtain rfl : e.generation = generation' := generation
    obtain rfl : e.text = text' := text
    rw [marked]
    refine ⟨e, u, List.mem_append_left _ edit, rfl, doc, newest.trans later.generation.symm, shown,
      isFor.mode.symm ▸ isFor, .inl ?_⟩
    rw [isFor.mode]
    exact .compiled worker (List.mem_append_left _ started) (List.mem_append_right _ List.mem_cons_self)
  | @edited t fs doc text tick running here of_doc generation _ _ shows =>
    subst tick here
    obtain rfl : doc = .name name := name_eq_of_same (named ▸ of_doc)
    obtain ⟨u, shown, isFor⟩ := shows name rfl
    have marked : w.marks .tick = [.edited (w.editBegun (.name name) text)] := by simp [marks, mark?, running]
    rw [marked]
    refine ⟨w.editBegun (.name name) text, u, List.mem_append_right _ List.mem_cons_self, rfl,
      rfl, generation.symm, shown,
      isFor.mode.symm ▸ isFor, ?_⟩
    rw [isFor.mode, firstMode]
    cases kind : classify text with
    | some m => exact .inl (.plain kind)
    | none =>
      refine .inr ⟨rfl, w.tasks.length, ?_⟩
      have worker : (w.editBegun (.name name) text).worker = some w.tasks.length := by
        simp [editBegun, workerFor, needsCompile, kind]
      exact ⟨worker, flight.edit_carried running worker⟩

/-- In every state of a gentle run the open documents show their newest edits. -/
theorem run_converging (new : w.IsNew) (mild : ∀ y ∈ w.subscribers, y.IsMild) {inputs : List Input}
    (allowed : ∀ i ∈ inputs, i.IsPublic ∧ i.IsGentle) : Converging (w.marksAlong inputs) (w.run inputs) := by
  let I (ms : List Mark) (v : World) : Prop :=
    (Flight ms (w.bench none) v ∧ v.ledger.Balanced ∧ Roster ms v ∧ v.Gentle) ∧ Converging ms v
  have kept : ∀ (ms : List Mark) (v : World) (i : Input), I ms v → i.IsPublic ∧ i.IsGentle →
      I (ms ++ v.marks i) (v.apply i) := by
    rintro ms v i ⟨⟨flight, balanced, roster, gentle⟩, converging⟩ ⟨given, soft⟩
    exact ⟨⟨flight.apply given, flight.apply_balanced balanced i, flight.apply_roster balanced roster given,
      gentle.apply flight soft⟩, converging.apply flight gentle roster given soft⟩
  have nobody : Roster [] w := by
    rintro s u ⟨e, he, -⟩
    cases he
  have nothing : Converging [] w := by
    intro x k name found
    simp [records, new.slots] at found
  exact (run_induct (I := I) kept ⟨⟨new.flight, new.balanced, nobody, new.gentle mild⟩, nothing⟩ inputs allowed).2

/-! ### The newest edit -/

theorem slotOf?_record {name : String} (registered : w.slotOf? (.name name) = some x) :
    ∃ k, w.slots[x]? = some k ∧ k.isOpen = true ∧ k.doc = .name name := by
  obtain ⟨a, seat, isOpen, same⟩ := slotOf?_seat registered
  rw [seats_getElem?] at seat
  obtain ⟨k, found, rfl⟩ := Option.map_eq_some_iff.1 seat
  exact ⟨k, found, isOpen, eq_name_of_same same⟩

/-- The edit with the number of its open slot is the last of its document. -/
theorem Numbered.newest (h : Numbered ms w) (booked : Booked ms w) {e : Edit} (edit : .edited e ∈ ms) {a : Seat}
    (seat : w.seats[e.slot]? = some a) (isOpen : a.isOpen = true) (top : e.generation = a.generation) :
    (editsTo ms e.doc).getLast? = some e := by
  have ordered : (editsTo ms e.doc).Pairwise fun e e' => e'.doc.same e.doc →
      e'.slot = e.slot ∧ e.generation < e'.generation ∨ w.IsShut e.slot ∧ e'.slot ≠ e.slot :=
    pairwise_editsWhere (p := fun e' => e'.doc.same e.doc = true) h.ordered
  have mem : e ∈ editsTo ms e.doc := mem_editsTo.2 ⟨edit, by simp [DocId.same]⟩
  obtain ⟨es, e', eq⟩ : ∃ es e', editsTo ms e.doc = es ++ [e'] :=
    ⟨_, _, (List.dropLast_concat_getLast (List.ne_nil_of_mem mem)).symm⟩
  rw [eq] at ordered mem ⊢
  rcases List.mem_append.1 mem with early | last
  · -- a later edit would have a higher number, or the slot would have been shut
    have mem' : e' ∈ editsTo ms e.doc := by simp [eq]
    obtain ⟨edit', same⟩ := mem_editsTo.1 mem'
    rcases (List.pairwise_append.1 ordered).2.2 e early e' List.mem_cons_self same with ⟨slot, higher⟩ | ⟨shut, -⟩
    · obtain ⟨a', seat', bound⟩ := booked.numbered e' edit'
      obtain rfl := Option.some.inj ((slot ▸ seat').symm.trans seat)
      omega
    · obtain ⟨a', seat', closed⟩ := shut
      obtain rfl := Option.some.inj (seat'.symm.trans seat)
      simp [closed] at isOpen
  · obtain rfl := List.mem_singleton.1 last
    simp

/-- The edit with the number of the slot of a document is the newest of the document. -/
theorem Numbered.registered (h : Numbered ms w) (booked : Booked ms w) {name : String}
    (registered : w.slotOf? (.name name) = some x) {e : Edit} (edit : .edited e ∈ ms) (slot : e.slot = x)
    (doc : e.doc = .name name) (top : e.generation = w.generationOf x) :
    (editsTo ms (.name name)).getLast? = some e ∧ e.generation = w.latestGeneration (.name name) := by
  obtain ⟨k, found, isOpen, -⟩ := slotOf?_record registered
  have seat : w.seats[e.slot]? = some k.seat := by simp [slot, found]
  constructor
  · refine doc ▸ h.newest booked edit seat isOpen ?_
    simpa [generationOf, found] using top
  · simpa [latestGeneration, registered] using top

theorem Upholds.settles {e : Edit} {name : String} {u : Update} (h : Upholds ms w e name u) (flight : Flight ms b w)
    (roster : Roster ms w) (edit : .edited e ∈ ms) (ended : ∀ t ∈ w.tasksOf e.slot, w.hasEnded t = true) :
    Settles ms e u.mode := by
  rcases h.2 with settles | ⟨-, t, worker, carries, -⟩
  · exact settles
  · have out := carries.out flight
    rw [ended t (carries.listed flight roster edit worker)] at out
    cases out

/-- In every state of a gentle run an open document shows its newest edit. -/
theorem run_shown (new : w.IsNew) (mild : ∀ y ∈ w.subscribers, y.IsMild) {inputs : List Input}
    (allowed : ∀ i ∈ inputs, i.IsPublic ∧ i.IsGentle) {name : String}
    (registered : (w.run inputs).slotOf? (.name name) = some x) :
    ∃ e u, .edited e ∈ w.marksAlong inputs ∧ e.slot = x ∧ e.doc = .name name ∧
      (editsTo (w.marksAlong inputs) (.name name)).getLast? = some e ∧
      e.generation = (w.run inputs).latestGeneration (.name name) ∧
      (w.run inputs).lastUpdate? (.name name) = some u ∧ Upholds (w.marksAlong inputs) (w.run inputs) e name u := by
  have given : ∀ i ∈ inputs, i.IsPublic := fun i mem => (allowed i mem).1
  obtain ⟨k, found, isOpen, named⟩ := slotOf?_record registered
  have record : (w.run inputs).records[x]? = some k.unlocked := by simp [found]
  obtain ⟨e, u, edit, slot, doc, generation, last, upholds⟩ :=
    run_converging new mild allowed x k.unlocked name record isOpen named
  have top : e.generation = (w.run inputs).generationOf x := by
    simpa [generationOf, found, Slot.unlocked] using generation
  obtain ⟨newest, latest⟩ :=
    (run_numbered new given).registered (run_flight new given).booked registered edit slot doc top
  refine ⟨e, u, edit, slot, doc, newest, latest, ?_, upholds⟩
  simpa [lastUpdate?, registered, found, Slot.unlocked] using last

/-- After every gentle run an open document with a name has a newest edit, with the newest generation of
the document, and an update of that generation. The update shows what the text of the edit settles on; or
it is pending, and exactly one task of the document is at work for that generation and text and has not
been cancelled. Once all tasks of the document have ended, the update shows what the newest text settles
on, which is never that it is pending. -/
theorem edits_converge {start : World} (new : start.IsNew) (mild : ∀ y ∈ start.subscribers, y.IsMild)
    {inputs : List Input} (allowed : ∀ i ∈ inputs, i.IsPublic ∧ i.IsGentle) {name : String}
    (registered : (start.run inputs).slotOf? (.name name) = some x) :
    ∃ e u, (editsTo (start.marksAlong inputs) (.name name)).getLast? = some e ∧ e.slot = x ∧
      e.generation = (start.run inputs).latestGeneration (.name name) ∧
      (start.run inputs).lastUpdate? (.name name) = some u ∧ u.generation = e.generation ∧
      (Settles (start.marksAlong inputs) e u.mode ∨ u.mode = .pending ∧
        ∃! t, t ∈ (start.run inputs).tasksOf x ∧ (start.run inputs).Carries t ⟨x, name, e.generation, e.text⟩) ∧
      ((∀ t ∈ (start.run inputs).tasksOf x, (start.run inputs).hasEnded t = true) →
        Settles (start.marksAlong inputs) e u.mode ∧ u.mode ≠ .pending) := by
  have given : ∀ i ∈ inputs, i.IsPublic := fun i mem => (allowed i mem).1
  have flight := run_flight new given
  have roster := run_roster new given
  obtain ⟨e, u, edit, rfl, doc, newest, latest, last, upholds⟩ := run_shown new mild allowed registered
  refine ⟨e, u, newest, rfl, latest, last, upholds.1.generation, ?_, fun ended => ?_⟩
  · refine upholds.2.imp id (And.imp_right ?_)
    rintro ⟨t, worker, carries, -⟩
    refine ⟨t, ⟨carries.listed flight roster edit worker, carries⟩, ?_⟩
    rintro t' ⟨-, unharmed, q, at_t', carries'⟩
    have mine : Mine (start.marksAlong inputs) t ⟨e.slot, name, e.generation, e.text⟩ :=
      ⟨e, edit, worker, rfl, doc, rfl, rfl⟩
    have calm := unharmed.calm at_t' flight
    exact flight.booked.eq_of_mine ((flight.stage at_t').mine carries' calm) mine rfl rfl
  · have settles := upholds.settles flight roster edit ended
    exact ⟨settles, settles.not_pending⟩

theorem mild_sample : ∀ y ∈ sample.subscribers, y.IsMild := by
  simp [sample, start, Subscriber.IsMild]

theorem isGentle_editing (text : String) (steps : Nat) : ∀ i ∈ editing text steps, i.IsPublic ∧ i.IsGentle := by
  intro i mem
  refine ⟨isPublic_editing text steps i mem, ?_⟩
  rcases List.mem_cons.1 mem with rfl | ticks
  · trivial
  · obtain rfl := List.eq_of_mem_replicate ticks
    trivial

/-- The edit of the small editor is settled once its task has ended. -/
theorem editing_settles : ∃ e u, (editsTo (sample.marksAlong (editing "Hi" 20)) (.name "a")).getLast? = some e ∧
    (sample.run (editing "Hi" 20)).lastUpdate? (.name "a") = some u ∧
    Settles (sample.marksAlong (editing "Hi" 20)) e u.mode := by
  have registered : (sample.run (editing "Hi" 20)).slotOf? (.name "a") = some 0 := rfl
  obtain ⟨e, u, newest, -, -, shown, -, -, settled⟩ :=
    edits_converge isNew_sample mild_sample (isGentle_editing "Hi" 20) registered
  exact ⟨e, u, newest, shown, (settled (by decide)).1⟩

end World
end InkPreview.Live
