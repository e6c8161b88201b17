import InkPreview.Proofs.Live.Convergence
import InkPreview.Proofs.Live.Filing
/-!
Library and preview. Where documents are edited by messages and requests alone, the library has the text of the
newest edit of every open document, so that the preview of a document at which nobody is at work any more is
that of the stored text. Main statement: `store_shown`.
-/
namespace InkPreview.Live

theorem editsTo_append (ms ms' : List Mark) (doc : DocId) :
    editsTo (ms ++ ms') doc = editsTo ms doc ++ editsTo ms' doc := List.filterMap_append

namespace World
variable {ms : List Mark} {w : World} {i : Input} {x : SlotId} {name : String}

/-- The running task is about to edit the document. Its text is stored, and does not have its number yet. -/
def Edits (w : World) (doc : DocId) (text : String) : Prop :=
  ∃ t fs id, w.current = some (t, fs, .start (.edit id text)) ∧ id.same doc = true

/-- The library has what the running task is about to edit, and otherwise the text of the newest edit. -/
structure Stored (ms : List Mark) (w : World) : Prop where
  asked : ∀ doc text, w.Edits doc text → w.library.content? doc = some text
  newest : ∀ doc e, (editsTo ms doc).getLast? = some e → (∀ text, ¬ w.Edits doc text) →
    w.library.content? doc = some e.text

namespace Stored

theorem apply_asked (h : Stored ms w) (filed : w.Filed i (w.apply i)) {doc : DocId} {text : String}
    (edits : (w.apply i).Edits doc text) : (w.apply i).library.content? doc = some text := by
  obtain ⟨t, fs, id, now, same⟩ := edits
  cases filed with
  | kept _ current contents => exact (contents doc).trans (h.asked doc text ⟨t, fs, id, current ▸ now, same⟩)
  | goes _ served => exact (served t fs _ now).elim
  | edits _ _ _ now' contents =>
    cases now.symm.trans now'
    rw [contents, if_pos same]

/-- An edit that begins is of the text that is stored. -/
theorem apply_edited (h : Stored ms w) {v : World} (filed : w.Filed .tick v) {t : TaskId} {fs : List Frame} {id : DocId}
    {text : String} (running : w.current = some (t, fs, .start (.edit id text))) {doc : DocId} {e : Edit}
    (last : (editsTo (ms ++ [.edited (w.editBegun id text)]) doc).getLast? = some e) :
    v.library.content? doc = some e.text := by
  have contents : v.library.content? doc = w.library.content? doc := by
    cases filed with
    | kept still => exact absurd (still rfl) (by simp [running])
    | goes _ _ contents => exact contents doc
    | edits _ running' files =>
      cases running.symm.trans running'
      exact files.elim
  rw [contents]
  cases same : id.same doc with
  | true =>
    have new : editsTo [.edited (w.editBegun id text)] doc = [w.editBegun id text] := by
      simp [editsTo, editBegun, same]
    rw [editsTo_append, new, List.getLast?_concat] at last
    obtain rfl := Option.some.inj last
    exact h.asked doc text ⟨t, fs, id, running, same⟩
  | false =>
    have none : editsTo [.edited (w.editBegun id text)] doc = [] := by simp [editsTo, editBegun, same]
    rw [editsTo_append, none, List.append_nil] at last
    refine h.newest doc e last ?_
    rintro text' ⟨t', fs', id', running', same'⟩
    cases running.symm.trans running'
    simp [same] at same'

theorem apply (h : Stored ms w) (filed : w.Filed i (w.apply i)) : Stored (ms ++ w.marks i) (w.apply i) := by
  refine ⟨fun doc text => h.apply_asked filed, fun doc e last apart => ?_⟩
  by_cases edit : ∃ e, .edited e ∈ w.marks i
  · obtain ⟨e', mem⟩ := edit
    obtain rfl : i = .tick := by
      cases i with
      | tick => rfl
      | _ => cases mem
    have marked : w.mark? = some (.edited e') := by simpa [marks] using mem
    obtain ⟨t, fs, id, text, running, rfl⟩ := mark?_edited marked
    have one : w.marks .tick = [.edited (w.editBegun id text)] := by simp [marks, marked]
    rw [one] at last
    exact h.apply_edited filed running last
  · have still : editsTo (w.marks i) doc = [] := by
      refine List.eq_nil_iff_forall_not_mem.2 fun e' mem => ?_
      exact edit ⟨e', (mem_editsTo.1 mem).1⟩
    rw [editsTo_append, still, List.append_nil] at last
    have unmarked : i = .tick → ∀ text, ¬ w.Edits doc text := by
      rintro rfl text ⟨t, fs, id, running, -⟩
      exact edit ⟨w.editBegun id text, by simp [marks, mark?, running]⟩
    cases filed with
    | kept _ current contents =>
      rw [contents]
      refine h.newest doc e last ?_
      rintro text ⟨t, fs, id, running, same⟩
      exact apart text ⟨t, fs, id, current ▸ running, same⟩
    | goes begins _ contents =>
      rw [contents]
      refine h.newest doc e last ?_
      rintro text ⟨t, fs, id, running, same⟩
      rcases begins with tick | idle
      · exact unmarked tick text ⟨t, fs, id, running, same⟩
      · simp [idle] at running
    | edits tick _ _ now contents =>
      rw [contents, if_neg fun same => apart _ ⟨_, _, _, now, same⟩]
      exact h.newest doc e last (unmarked tick)

end Stored

theorem run_stored (new : w.IsNew) (serves : ∀ y ∈ w.subscribers, y.IsServed) {inputs : List Input}
    (allowed : ∀ i ∈ inputs, i.IsPublic ∧ i.IsServed) : Stored (w.marksAlong inputs) (w.run inputs) := by
  let I (ms : List Mark) (v : World) : Prop := (v.Sane ∧ v.Served) ∧ Stored ms v
  have kept : ∀ (ms : List Mark) (v : World) (i : Input), I ms v → i.IsPublic ∧ i.IsServed →
      I (ms ++ v.marks i) (v.apply i) := by
    rintro ms v i ⟨⟨sane, served⟩, stored⟩ ⟨given, serves⟩
    obtain ⟨served', filed⟩ := served.apply sane serves
    exact ⟨⟨(sane.apply given).sane, served'⟩, stored.apply filed⟩
  have nothing : Stored [] w := by
    constructor
    · rintro doc text ⟨t, fs, id, running, -⟩
      simp [new.current] at running
    · simp [editsTo]
  exact (run_induct (I := I) kept ⟨⟨new.sane, new.served serves⟩, nothing⟩ inputs allowed).2

/-! ### The newest edit of an open document -/

/-- All slots have been edited. -/
def Raised (w : World) : Prop := ∀ (x : SlotId) k, w.records[x]? = some k → 0 < k.generation

/-- A slot is opened by an edit, which gives it its first number. -/
theorem Sane.apply_raised (h : w.Sane) (raised : w.Raised) (i : Input) : (w.apply i).Raised := by
  intro x k found
  cases h.apply_revised i found with
  | kept at_x later => exact later.generation ▸ raised x _ at_x
  | settled _ _ _ at_x later => exact later.generation ▸ raised x _ at_x
  | edited _ _ _ _ generation =>
    rw [generation, editBegun_next]
    exact Nat.succ_pos _

theorem Sane.run_raised (h : w.Sane) (raised : w.Raised) {inputs : List Input} (allowed : ∀ i ∈ inputs, i.IsPublic) :
    (w.run inputs).Raised := by
  induction inputs generalizing w with
  | nil => exact raised
  | cons i rest ih =>
    have next := h.apply_raised raised i
    exact ih (h.apply (allowed i (by simp))).sane next fun j mem => allowed j (List.mem_cons_of_mem i mem)

theorem run_newest (new : w.IsNew) {inputs : List Input} (allowed : ∀ i ∈ inputs, i.IsPublic)
    (registered : (w.run inputs).slotOf? (.name name) = some x) :
    ∃ e, (editsTo (w.marksAlong inputs) (.name name)).getLast? = some e ∧
      e.generation = (w.run inputs).latestGeneration (.name name) := by
  have numbered := run_numbered new allowed
  obtain ⟨k, found, isOpen, named⟩ := slotOf?_record registered
  have raised : 0 < (w.run inputs).generationOf x := by
    have record : (w.run inputs).records[x]? = some k.unlocked := by simp [found]
    have first : w.Raised := by simp [Raised, records, new.slots]
    simpa [generationOf, found, Slot.unlocked] using new.sane.run_raised first allowed x k.unlocked record
  have last : (w.run inputs).generationOf x ∈ (editsOf (w.marksAlong inputs) x).map (·.generation) := by
    rw [numbered.counted, List.mem_range'_1]
    omega
  obtain ⟨e, mem, top⟩ := List.mem_map.1 last
  obtain ⟨edit, slot⟩ := mem_editsOf.1 mem
  obtain ⟨a, seat, same⟩ := run_placed new.sane allowed e edit
  have doc : e.doc = .name name := by
    rw [slot, seats_getElem?, found] at seat
    obtain rfl := Option.some.inj seat
    rw [Slot.seat_doc, named] at same
    exact eq_name_of_same (DocId.same_symm same)
  exact ⟨e, numbered.registered (run_flight new allowed).booked registered edit slot doc top⟩

/-- After every run in which documents are edited by messages and requests alone, whatever else clients ask for and
in whatever order: an open document with a name has a newest edit, with the newest generation of the document, and
the library has its text, unless the running task has just stored another one, which the next step edits the
document to. If nobody has cancelled anything and all tasks of the document have ended, then its last update is of
that generation and shows what the text settles on. -/
theorem store_shown {start : World} (new : start.IsNew) (serves : ∀ y ∈ start.subscribers, y.IsServed)
    {inputs : List Input} (allowed : ∀ i ∈ inputs, i.IsPublic ∧ i.IsServed)
    (registered : (start.run inputs).slotOf? (.name name) = some x) :
    ∃ e, (editsTo (start.marksAlong inputs) (.name name)).getLast? = some e ∧
      e.generation = (start.run inputs).latestGeneration (.name name) ∧
      ((∀ text, ¬ (start.run inputs).Edits (.name name) text) →
        (start.run inputs).library.content? (.name name) = some e.text) ∧
      (∀ text, (start.run inputs).Edits (.name name) text →
        (start.run inputs).library.content? (.name name) = some text) ∧
      ((∀ y ∈ start.subscribers, y.IsMild) → (∀ i ∈ inputs, i.IsGentle) →
        (∀ t ∈ (start.run inputs).tasksOf x, (start.run inputs).hasEnded t = true) →
        ∃ u, (start.run inputs).lastUpdate? (.name name) = some u ∧ u.generation = e.generation ∧
          Settles (start.marksAlong inputs) e u.mode ∧ u.mode ≠ .pending) := by
  have given : ∀ i ∈ inputs, i.IsPublic := fun i mem => (allowed i mem).1
  have stored := run_stored new serves allowed
  obtain ⟨e, newest, latest⟩ := run_newest new given registered
  refine ⟨e, newest, latest, stored.newest _ e newest, stored.asked _, fun mild soft ended => ?_⟩
  obtain ⟨e', u, edit, rfl, -, newest', -, last, upholds⟩ :=
    run_shown new mild (fun i mem => ⟨given i mem, soft i mem⟩) registered
  obtain rfl := Option.some.inj (newest.symm.trans newest')
  have settles := upholds.settles (run_flight new given) (run_roster new given) edit ended
  exact ⟨u, last, upholds.1.generation, settles, settles.not_pending⟩

/-- A client sends an edit, and what follows is carried out. -/
def messaging (steps : Nat) : List Input :=
  .connect (fun _ => none) ::
    .begin (.handle 0 "\x7b\"action\": \"edit\", \"document_id\": \"a\", \"text\": \"Hi\"\x7d") ::
      List.replicate steps .tick

theorem isServed_messaging (steps : Nat) : ∀ i ∈ messaging steps, i.IsPublic ∧ i.IsServed ∧ i.IsGentle := by
  intro i mem
  rcases List.mem_cons.1 mem with rfl | mem
  · exact ⟨trivial, trivial, trivial⟩
  rcases List.mem_cons.1 mem with rfl | ticks
  · exact ⟨.handle _ _, trivial, trivial⟩
  · obtain rfl := List.eq_of_mem_replicate ticks
    exact ⟨trivial, trivial, trivial⟩

/-- The text that a client has sent to the small editor is stored and settled. -/
theorem messaging_settles : ∃ e u, (editsTo (sample.marksAlong (messaging 24)) (.name "a")).getLast? = some e ∧
    (sample.run (messaging 24)).library.content? (.name "a") = some e.text ∧
    (sample.run (messaging 24)).lastUpdate? (.name "a") = some u ∧
    Settles (sample.marksAlong (messaging 24)) e u.mode := by
  have registered : (sample.run (messaging 24)).slotOf? (.name "a") = some 0 := by decide +kernel
  have idle : (sample.run (messaging 24)).current.isNone = true := by decide +kernel
  have ended : ∀ t ∈ (sample.run (messaging 24)).tasksOf 0, (sample.run (messaging 24)).hasEnded t = true := by
    decide +kernel
  have serves : ∀ y ∈ sample.subscribers, y.IsServed := by simp [sample, start, Subscriber.IsServed]
  obtain ⟨e, newest, -, stored, -, settled⟩ := store_shown isNew_sample serves
    (fun i mem => ⟨(isServed_messaging 24 i mem).1, (isServed_messaging 24 i mem).2.1⟩) registered
  obtain ⟨u, last, -, settles, -⟩ := settled mild_sample (fun i mem => (isServed_messaging 24 i mem).2.2) ended
  refine ⟨e, u, newest, stored ?_, last, settles⟩
  rintro text ⟨t, fs, id, running, -⟩
  simp [running] at idle

end World
end InkPreview.Live
