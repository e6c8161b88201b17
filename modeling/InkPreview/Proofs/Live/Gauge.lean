import InkPreview.Proofs.Live.Fresh
import InkPreview.Proofs.Metrics
/-!
The gauge of open documents. It is set whenever a document is opened or closed, as long as measurements are
taken, and by nothing else; so it shows the number of open slots if measurements were taken when that number
last changed. Main statement: `run_gauged`.
-/
namespace InkPreview

open Decimal (Number)

namespace Metrics

theorem gaugeValue_gauge {m : Metrics} (enabled : m.enabled = true) (name : String) (v : Number) (ls : Labels) :
    (m.gauge name v ls).gaugeValue name ls = v := by
  simp [gauge, gaugeValue, enabled, lookup_upsert_self]

end Metrics

namespace Live.World
variable {now w v : World} {t : TaskId} {fs : List Frame} {s : Signal} {i : Input}

/-- The gauge shows how many documents are open. -/
def Gauged (w : World) : Prop := w.metrics.gaugeValue "coordinator.documents" [] = .whole w.openSlots.length

/-- The running task is about to open a document, by an edit, or to close one that is open. -/
def Registers (w : World) : Prop :=
  ∃ t fs op, w.current = some (t, fs, .start op) ∧ ((∃ doc text, op = .edit doc text ∧ w.slotOf? doc = none) ∨
    ∃ doc, op = .close doc ∧ w.slotOf? doc ≠ none)

/-- Measurements are taken whenever a document is opened or closed in the run. -/
def Measured (w : World) : List Input → Prop
  | [] => True
  | i :: rest => (i = .tick → w.Registers → w.metrics.enabled = true) ∧ (w.apply i).Measured rest

/-! ### Counting open slots -/

theorem length_openSlots (w : World) : w.openSlots.length = w.seats.countP (·.isOpen) := by
  have fst : w.slots.zipIdx.map (·.1) = w.slots := List.zipIdx_map_fst 0 w.slots
  rw [openSlots, List.length_map, ← List.countP_eq_length_filter, seats, List.countP_map]
  conv => rhs; rw [← fst, List.countP_map]
  rfl

theorem Gauged.same (h : w.Gauged) (gauges : v.metrics.gauges = w.metrics.gauges)
    (seats : v.seats.countP (·.isOpen) = w.seats.countP (·.isOpen)) : v.Gauged := by
  unfold Gauged Metrics.gaugeValue at h ⊢
  rw [gauges, h, length_openSlots, length_openSlots, seats]

theorem Gauged.counts (h : w.Gauged) (counts : w.metrics.Counts v.metrics) (seats : v.seats = w.seats) : v.Gauged :=
  h.same counts.gauges (by rw [seats])

/-- Counting the open documents sets the gauge right, or leaves it alone. -/
theorem gaugeDocuments_gauged (h : w.metrics.enabled = true ∨ w.Gauged) : w.gaugeDocuments.Gauged := by
  cases enabled : w.metrics.enabled with
  | true => exact Metrics.gaugeValue_gauge enabled _ _ _
  | false =>
    have kept : w.gaugeDocuments = w := by simp [gaugeDocuments, Metrics.gauge, enabled]
    rw [kept]
    exact h.resolve_left (by simp [enabled])

theorem bumped_gauged {doc : DocId} (opens : w.slotOf? doc = none → w.metrics.enabled = true)
    (kept : w.slotOf? doc ≠ none → w.Gauged) : (w.bumped doc).Gauged := by
  have raised : ∀ {v : World} {y : SlotId} {n : Nat}, v.Gauged →
      (v.modifySlot y fun k => { k with generation := n }).Gauged := by
    intro v y n gauged
    refine gauged.same rfl ?_
    have same : (v.modifySlot y fun k => { k with generation := n }).slots.map (·.isOpen) =
        v.slots.map (·.isOpen) := by
      refine List.ext_getElem? fun j => ?_
      simp only [modifySlot, List.getElem?_map, List.getElem?_modify]
      cases v.slots[j]? with
      | none => rfl
      | some k => by_cases here : y = j <;> simp [here]
    have count : ∀ u : World, u.seats.countP (·.isOpen) = (u.slots.map (·.isOpen)).countP id := by
      intro u
      rw [seats, List.countP_map, List.countP_map]
      rfl
    rw [count, count, same]
  unfold bumped
  cases registered : w.slotOf? doc with
  | some y =>
    rw [ensureSlot_of_some registered]
    exact raised (kept (by simp [registered]))
  | none =>
    rw [ensureSlot_of_none registered]
    exact raised (gaugeDocuments_gauged (.inl (opens registered)))

/-! ### Edits and closings -/

theorem metrics_land (w : World) (t : TaskId) (l : Landing) : (w.land t l).metrics = w.metrics :=
  land_same Nudges.metrics (fun _ _ _ _ _ => rfl) w t l

theorem abandonPending_counts (w : World) (y : SlotId) : w.metrics.Counts (w.abandonPending y).metrics := by
  unfold abandonPending
  dsimp only
  split
  · rename_i u _
    split
    · exact .refl _
    · have cancelled : ((w.modifySlot y fun k => { k with pending := none }).cancel u).metrics = w.metrics :=
        (cancel_nudges _ u).metrics
      exact cancelled ▸ (Alike.count _ _).metrics
  · exact .refl _

theorem metrics_startRequest (w : World) (r : Request) : (w.startRequest r).metrics = w.metrics := rfl

theorem deliver_counts (t : TaskId) (fs : List Frame) (y : SlotId) (name : String) (g : Nat) (m : Mode) :
    w.metrics.Counts (w.deliver t fs y name g m).metrics := by
  cases current : w.isCurrent y g with
  | false =>
    rw [deliver_stale t fs name m current]
    exact (Alike.count w _).metrics
  | true =>
    obtain ⟨v, alike, eq⟩ := deliver_eq t fs name m current
    rw [eq]
    exact alike.metrics

/-- After it has opened the document, an edit only counts. -/
theorem beginEdit_counts (t : TaskId) (fs : List Frame) (doc : DocId) (text : String) :
    (w.bumped doc).metrics.Counts (w.beginEdit t fs doc text).metrics := by
  have abandoned := abandonPending_counts (w.bumped doc) (w.editBegun doc text).slot
  have delivered : ∀ {v : World} (fs : List Frame) (y : SlotId) (name : String) (g : Nat) (m : Mode),
      (w.bumped doc).metrics.Counts v.metrics → (w.bumped doc).metrics.Counts (v.deliver t fs y name g m).metrics :=
    fun fs y name g m counts => counts.trans (deliver_counts t fs y name g m)
  by_cases named : ∃ name, doc = .name name
  · obtain ⟨name, rfl⟩ := named
    rw [beginEdit_name]
    dsimp only
    split
    · exact delivered _ _ _ _ _ (abandoned.trans (Alike.note _ _).metrics)
    · refine delivered _ _ _ _ _ ?_
      rw [metrics_startRequest]
      exact abandoned.trans (Alike.note _ _).metrics
  · rw [beginEdit_unnamed w t fs text fun name eq => named ⟨name, eq⟩]
    exact abandoned

theorem beginEdit_gauged (t : TaskId) (fs : List Frame) {doc : DocId} (text : String)
    (opens : w.slotOf? doc = none → w.metrics.enabled = true) (kept : w.slotOf? doc ≠ none → w.Gauged) :
    (w.beginEdit t fs doc text).Gauged :=
  (bumped_gauged opens kept).counts (beginEdit_counts t fs doc text) (seats_beginEdit t fs doc text)

theorem removeSlot_gauged {doc : DocId} (closes : w.slotOf? doc ≠ none → w.metrics.enabled = true)
    (kept : w.slotOf? doc = none → w.Gauged) : (w.removeSlot doc).2.Gauged := by
  unfold removeSlot
  refine gaugeDocuments_gauged ?_
  cases registered : w.slotOf? doc with
  | none =>
    right
    have gauged := kept registered
    cases doc with
    | name | number | truth => exact gauged
  | some y =>
    left
    have enabled := closes (by simp [registered])
    cases doc with
    | name | number | truth => exact enabled

/-! ### Whatever else a step does -/

/-- What is done aside but for messages and requests only counts. -/
theorem Aside.counts (h : Aside t w v) (noFiles : ∀ u fs op, w.current = some (u, fs, .start op) → ¬ op.Files) :
    w.metrics.Counts v.metrics := by
  cases h with
  | alike h => exact h.metrics
  | files h files => exact absurd files (noFiles _ _ _ h)
  | stop | forestall =>
    rw [stopped, (cancel_nudges _ _).metrics]
    exact .refl _
  | @enroll members _ =>
    obtain ⟨ks, js, eq, -⟩ := enroll_eq w t members
    rw [eq]
    exact .refl _
  | call | process | launch | spawn | follow => exact .refl _

theorem asides_counts (h : Relation.ReflTransGen (Aside t) w v)
    (noFiles : ∀ u fs op, w.current = some (u, fs, .start op) → ¬ op.Files) : w.metrics.Counts v.metrics := by
  induction h with
  | refl => exact .refl _
  | @tail x _ steps step ih =>
    have deeds : w.Deeds w x := .asides steps
    exact ih.trans (step.counts (deeds.current ▸ noFiles))

theorem Deeds.counts (h : now.Deeds now v) (noFiles : ∀ u fs op, now.current = some (u, fs, .start op) → ¬ op.Files)
    (noReseats : ¬ now.Reseats) : now.metrics.Counts v.metrics := by
  induction h with
  | refl => exact .refl _
  | tail steps step ih =>
    refine ih.trans ?_
    cases step with
    | aside h => exact h.counts (Deeds.current steps ▸ noFiles)
    | slots | render | discard | call | hire => exact .refl _
    | gauge _ h => exact absurd h noReseats
    | cancel =>
      rw [(cancel_nudges _ _).metrics]
      exact .refl _

theorem beginClose_gauged {doc : DocId} (running : w.current = some (t, fs, .start (.close doc)))
    (there : ∀ x, ∀ u ∈ w.tasksOf x, u < w.tasks.length)
    (closes : w.slotOf? doc ≠ none → w.metrics.enabled = true) (kept : w.slotOf? doc = none → w.Gauged) :
    (w.beginClose t fs doc).Gauged := by
  obtain ⟨x, l, asides, -, eq⟩ := beginClose_leads running there
  have cancelled := cancelAll_nudges (w.removeSlot doc).2
    (((w.removeSlot doc).1.map (w.removeSlot doc).2.tasksOf).getD [])
  have current : (w.removeSlot doc).2.current = w.current := by
    unfold removeSlot
    cases w.slotOf? doc <;> cases doc <;> rfl
  have counts := asides_counts asides fun u gs op now files => by
    rw [cancelled.current, current, running] at now
    cases now
    exact files
  have gauged : x.Gauged := by
    refine (removeSlot_gauged closes kept).counts ?_ ?_
    · exact cancelled.metrics ▸ counts
    · rw [asides_seats asides, cancelled.seats]
  rw [eq]
  refine gauged.counts ?_ (seats_land t l)
  rw [metrics_land]
  exact .refl _

/-- A message leaves the gauge alone, except that the close of what is no name counts the open documents. -/
theorem beginHandle_gauged (h : w.Gauged) (t : TaskId) (fs : List Frame) (c : ClientId) (data : String) :
    (w.beginHandle t fs c data).Gauged := by
  unfold beginHandle
  split
  · exact h
  · unfold ask
    split
    · split
      · exact h
      · exact h
    · split
      · exact h
      · split
        · exact h
        · exact h
    · split
      · split
        · unfold closeUnnamed
          split
          · exact gaugeDocuments_gauged (.inr h)
          · exact h
        · exact h
      · exact h
    · exact h
    · exact h

theorem beginRequest_gauged (h : w.Gauged) (t : TaskId) (fs : List Frame) (r : Web.Request) :
    (w.beginRequest t fs r).Gauged := by
  unfold beginRequest
  split
  · exact h
  · unfold takeRoute
    split
    · exact h
    · exact h
    · split
      · exact h
      · split
        · exact h
        · exact h
    · split
      · exact h
      · split
        · exact h
        · exact h
    · exact h
    · split
      · unfold exportDocument
        split
        · exact h
        · exact h
      · exact h
    · exact h
    · exact h

theorem Stirs.gauges (h : Stirs i w v) : v.metrics.gauges = w.metrics.gauges := by
  induction h with
  | refl => rfl
  | tail _ step ih =>
    refine Eq.trans ?_ ih
    cases step with
    | alike h => exact h.metrics.gauges
    | later | child | enables | dates | taken | counts | spawn => rfl
    | nudge h => rw [(Nudges.one h).metrics]
    | cancel => rw [(cancel_nudges _ _).metrics]

/-! ### Steps and runs -/

theorem Sane.move_kept (h : w.Sane) (running : w.current = some (t, fs, s)) (gauged : w.Gauged)
    (noEdit : ∀ doc text, s ≠ .start (.edit doc text)) (noClose : ∀ doc, s ≠ .start (.close doc)) :
    (w.move t fs s).Gauged := by
  by_cases files : ∃ op, s = .start op ∧ op.Files
  · obtain ⟨op, rfl, files⟩ := files
    cases op with
    | handle c data => exact beginHandle_gauged gauged t fs c data
    | request r => exact beginRequest_gauged gauged t fs r
    | _ => exact files.elim
  · obtain ⟨x, l, deeds, next, eq⟩ := h.reaches running
    have noFiles : ∀ u gs op, w.current = some (u, gs, .start op) → ¬ op.Files := by
      intro u gs op now isFile
      cases running.symm.trans now
      exact files ⟨op, rfl, isFile⟩
    have noReseats : ¬ w.Reseats := by
      rintro ⟨u, gs, op, now, ⟨doc, text, rfl⟩ | ⟨doc, rfl⟩⟩
      · cases running.symm.trans now
        exact noEdit doc text rfl
      · cases running.symm.trans now
        exact noClose doc rfl
    have kept : w.seatsAfter s = w.seats := by
      unfold seatsAfter
      split
      · exact absurd rfl (noEdit _ _)
      · exact absurd rfl (noClose _)
      · rfl
    rw [eq]
    refine gauged.counts ?_ ?_
    · rw [metrics_land]
      exact deeds.counts noFiles noReseats
    · rw [seats_land, seats_of_records rfl, next.seats, kept]

theorem Sane.move_gauged (h : w.Sane) (running : w.current = some (t, fs, s))
    (enabled : w.Registers → w.metrics.enabled = true) (prior : ¬ w.Registers → w.Gauged) : (w.move t fs s).Gauged := by
  by_cases edits : ∃ doc text, s = .start (.edit doc text)
  · obtain ⟨doc, text, rfl⟩ := edits
    refine beginEdit_gauged t fs text (fun fresh => enabled ⟨t, fs, _, running, .inl ⟨doc, text, rfl, fresh⟩⟩)
      fun there => prior ?_
    rintro ⟨u, gs, op, running', ⟨doc', text', rfl, fresh⟩ | ⟨doc', rfl, -⟩⟩
    · cases running.symm.trans running'
      exact there fresh
    · cases running.symm.trans running'
  by_cases closes : ∃ doc, s = .start (.close doc)
  · obtain ⟨doc, rfl⟩ := closes
    refine beginClose_gauged running h.members
      (fun there => enabled ⟨t, fs, _, running, .inr ⟨doc, rfl, there⟩⟩) fun fresh => prior ?_
    rintro ⟨u, gs, op, running', ⟨doc', text', rfl, -⟩ | ⟨doc', rfl, there⟩⟩
    · cases running.symm.trans running'
    · cases running.symm.trans running'
      exact there fresh
  refine h.move_kept running (prior ?_) (fun doc text eq => edits ⟨doc, text, eq⟩) fun doc eq => closes ⟨doc, eq⟩
  rintro ⟨u, gs, op, running', ⟨doc, text, rfl, -⟩ | ⟨doc, rfl, -⟩⟩
  · cases running.symm.trans running'
    exact edits ⟨doc, text, rfl⟩
  · cases running.symm.trans running'
    exact closes ⟨doc, rfl⟩

theorem Sane.apply_gauged (h : w.Sane) (enabled : i = .tick → w.Registers → w.metrics.enabled = true)
    (prior : (i = .tick → ¬ w.Registers) → w.Gauged) : (w.apply i).Gauged := by
  have idle : (i = .tick → w.current = none) → w.Gauged := by
    refine fun still => prior fun tick now => ?_
    obtain ⟨u, gs, op, running, -⟩ := now
    rw [still tick] at running
    cases running
  have happens := w.apply_happens i
  generalize w.apply i = v at *
  cases happens with
  | moves running => exact h.move_gauged running (enabled rfl) fun none => prior fun _ => none
  | @resumes t rest still =>
    have gauged := idle fun _ => still
    obtain ⟨ks, cur, eq⟩ := resume_eq { w with queue := rest } t
    rw [eq]
    exact gauged
  | @forgets x u rest still =>
    have seats : (({ w with queue := rest } : World).modifySlot x fun k =>
        { k with tasks := k.tasks.filter (· != u) }).seats = w.seats :=
      seats_modifySlot (w := { w with queue := rest }) x fun _ => rfl
    exact (idle fun _ => still).counts (.refl _) seats
  | launches | subscribes => exact idle (by simp)
  | stirs stirred still =>
    have seats : v.seats = w.seats := by rw [seats_of_records stirred.rest.1, ← seats_of_records rfl]
    exact (idle still).same stirred.gauges (by rw [seats])

/-- Once it is right, the gauge stays so as long as measurements are taken whenever a document is opened or
closed. -/
theorem run_gauged (h : w.Sane) (gauged : w.Gauged) {inputs : List Input} (allowed : ∀ i ∈ inputs, i.IsPublic)
    (measured : w.Measured inputs) : (w.run inputs).Gauged := by
  induction inputs generalizing w with
  | nil => exact gauged
  | cons i rest ih =>
    obtain ⟨now, later⟩ := measured
    have step := h.apply_gauged now fun _ => gauged
    exact ih (h.apply (allowed i (by simp))).sane step (fun j mem => allowed j (List.mem_cons_of_mem i mem)) later

end Live.World
end InkPreview
