import InkPreview.Proofs.Live.Absence
import InkPreview.Proofs.Live.Revisions
/-!
Pages. An edit, and the answer of a compile for an edit that still counts, have a page of their document
rendered and recorded as its update; a closing discards the pages of its document; nothing else touches the
gallery. So the page in the gallery is always that of the last update. Main statement: `run_agreed`.
-/
namespace InkPreview.Live
namespace World
variable {ms : List Mark} {b : Bench} {now w v : World} {t : TaskId} {fs : List Frame} {x : SlotId} {r : Request}
  {i : Input} {k k' : Slot} {u : Update} {name : String}

/-! ### What is drawn -/

/-- The slot has a new update of the document, with a page rendered from the gallery `g`. -/
def Draws (g : Gallery) (v : World) (x : SlotId) (name : String) : Prop :=
  ∃ u m, u.doc = name ∧ u.artifact = (g.render name m).1 ∧ v.gallery = (g.render name m).2.2 ∧
    ∀ k, v.records[x]? = some k → k.lastUpdate = some u

/-- What has been drawn is the page that the gallery has. -/
theorem Draws.page {g : Gallery} (h : Draws g v x name) (found : v.records[x]? = some k)
    (last : k.lastUpdate = some u) :
    u.doc = name ∧ v.gallery.current u.doc = u.artifact.html := by
  obtain ⟨u', m, doc, page, gallery, recorded⟩ := h
  obtain rfl := Option.some.inj (last.symm.trans (recorded k found))
  refine ⟨doc, ?_⟩
  rw [doc, page, gallery]
  exact Gallery.current_render g name m

theorem deliver_draws (t : TaskId) (fs : List Frame) {g : Nat} (name : String) (m : Mode)
    (current : w.isCurrent x g = true) : Draws w.gallery (w.deliver t fs x name g m) x name := by
  obtain ⟨v, alike, eq⟩ := deliver_eq t fs name m current
  refine ⟨w.drawn x name g m, m, rfl, rfl, ?_, fun k found => ?_⟩
  · rw [eq]
    exact alike.gallery
  · have records : (w.deliver t fs x name g m).records =
        v.records.modify x fun k => { k with lastUpdate := some (w.drawn x name g m) } := by
      rw [eq]
      exact records_modifySlot x fun _ => rfl
    rw [records] at found
    obtain ⟨k', -, rfl⟩ := modify_record found
    rw [if_pos rfl]

theorem gallery_bumped (w : World) (doc : DocId) : (w.bumped doc).gallery = w.gallery := by
  unfold bumped ensureSlot
  cases w.slotOf? doc <;> rfl

theorem gallery_abandonPending (w : World) (s : SlotId) : (w.abandonPending s).gallery = w.gallery := by
  unfold abandonPending
  dsimp only
  split
  · split
    · rfl
    · exact (cancel_nudges _ _).gallery
  · rfl

theorem gallery_startRequest (w : World) (r : Request) : (w.startRequest r).gallery = w.gallery := rfl

theorem gallery_release (w : World) (s : SlotId) : (w.release s).gallery = w.gallery := by
  unfold release callNext
  split
  · rfl
  · rfl

theorem Sane.edit_draws (h : w.Sane) {text : String}
    (running : w.current = some (t, fs, .start (.edit (.name name) text))) :
    Draws w.gallery w.tick (w.editBegun (.name name) text).slot name := by
  let e := w.editBegun (.name name) text
  have delivered : ∀ {v : World} (fs : List Frame) (m : Mode), v.seats = (w.bumped (.name name)).seats →
      v.gallery = w.gallery → Draws w.gallery (v.deliver t fs e.slot name e.generation m) e.slot name := by
    intro v fs m seats gallery
    have drawn := deliver_draws t fs name m (isCurrent_bumped h.distinct (.name name) text seats)
    rwa [gallery] at drawn
  have seats := seats_abandonPending (w := w.bumped (.name name)) e.slot
  have gallery := (gallery_abandonPending (w.bumped (.name name)) e.slot).trans (gallery_bumped w _)
  have step : w.tick = w.beginEdit t fs (.name name) text := tick_running running
  rw [step, beginEdit_name]
  dsimp only
  split
  · exact delivered _ _ ((seats_note _).trans seats) ((Alike.note _ _).gallery.trans gallery)
  · exact delivered _ _ ((seats_startRequest _).trans ((seats_note _).trans seats))
      ((gallery_startRequest _ _).trans ((Alike.note _ _).gallery.trans gallery))

theorem settle_draws (t : TaskId) (fs : List Frame) (r : Request) (o : Outcome)
    (current : w.isCurrent r.slot r.generation = true) : Draws w.gallery (w.settle t fs r o) r.slot r.doc := by
  unfold settle
  rw [if_neg (by simp [current])]
  cases o with
  | success story => exact deliver_draws t fs r.doc _ current
  | failed kind m => exact deliver_draws (w := w.note (.failed r.doc r.generation kind)) t fs r.doc _ current

theorem answer_draws {o : Except Fault Outcome} (running : w.current = some (t, .holding r :: fs, answerSignal o))
    (current : w.isCurrent r.slot r.generation = true) : Draws w.gallery w.tick r.slot r.doc := by
  have released : ∀ {v : World}, v.seats = w.seats → v.gallery = w.gallery → ∀ o,
      Draws w.gallery ((v.release r.slot).settle t fs r o) r.slot r.doc := by
    intro v seats gallery o
    have drawn := settle_draws (w := v.release r.slot) t fs r o
      ((isCurrent_seats ((seats_release _).trans seats) _ _).trans current)
    rwa [gallery_release, gallery] at drawn
  rw [tick_running running]
  cases o with
  | ok o => exact released rfl rfl o
  | error f => exact released (v := w.note (.crashed r.doc f.message)) rfl rfl _

/-! ### What leaves the gallery alone -/

theorem Deeds.undrawn (h : now.Deeds w v) (unshown : ∀ name, ¬ now.Shows name)
    (unclosed : ∀ t fs name, now.current ≠ some (t, fs, .start (.close (.name name)))) : v.gallery = w.gallery := by
  induction h with
  | refl => rfl
  | tail _ step ih =>
    refine Eq.trans ?_ ih
    cases step with
    | aside h => exact h.gallery
    | slots | gauge | call | hire => rfl
    | @render doc _ shows_ => exact absurd shows_ (unshown doc)
    | discard running => exact absurd running (unclosed _ _ _)
    | cancel => exact (cancel_nudges _ _).gallery

theorem Sane.apply_gallery (h : w.Sane) (i : Input) : (w.apply i).gallery = w.gallery ∨
    i = .tick ∧ ((∃ name, w.Shows name) ∨ ∃ t fs name, w.current = some (t, fs, .start (.close (.name name)))) := by
  have happens := w.apply_happens i
  generalize w.apply i = v at *
  cases happens with
  | @moves t fs s running =>
    by_cases shown : ∃ name, w.Shows name
    · exact .inr ⟨rfl, .inl shown⟩
    · by_cases closed : ∃ t fs name, w.current = some (t, fs, .start (.close (.name name)))
      · exact .inr ⟨rfl, .inr closed⟩
      · obtain ⟨y, l, deeds, -, eq⟩ := h.reaches running
        left
        rw [eq, gallery_land]
        exact deeds.undrawn (fun name shows_ => shown ⟨name, shows_⟩) fun t fs name now => closed ⟨t, fs, name, now⟩
  | @resumes t rest =>
    left
    obtain ⟨ks, cur, eq⟩ := resume_eq { w with queue := rest } t
    rw [eq]
  | forgets | launches | subscribes => exact .inl rfl
  | stirs stirred => exact .inl stirred.gallery

theorem closed_gallery (running : w.current = some (t, fs, .start (.close (.name name))))
    (there : ∀ s, ∀ u ∈ w.tasksOf s, u < w.tasks.length) : w.tick.gallery = w.gallery.discard name := by
  obtain ⟨x, l, asides, -, eq⟩ := beginClose_leads running there
  have step : w.tick = x.land t l := (tick_running running).trans eq
  rw [step, gallery_land, asides_gallery asides, (cancelAll_nudges _ _).gallery]
  unfold removeSlot
  cases w.slotOf? (.name name) <;> rfl

/-! ### Slots and their updates -/

/-- An edit gives no slot an update before its delivery. -/
theorem bumped_last {doc : DocId} (found : (w.bumped doc).records[x]? = some k') : k'.lastUpdate = none ∨
    ∃ k, w.records[x]? = some k ∧ k'.doc = k.doc ∧ k'.isOpen = k.isOpen ∧ k'.lastUpdate = k.lastUpdate := by
  have raised : ∀ (v : World) (y : SlotId) (n : Nat),
      (v.modifySlot y fun k => { k with generation := n }).records[x]? = some k' →
      ∃ k, v.records[x]? = some k ∧ k'.doc = k.doc ∧ k'.isOpen = k.isOpen ∧ k'.lastUpdate = k.lastUpdate := by
    intro v y n at_x
    rw [records_modifySlot (g := fun k => { k with generation := n }) y fun _ => rfl] at at_x
    obtain ⟨k, old, rfl⟩ := modify_record at_x
    refine ⟨k, old, ?_⟩
    split
    · exact ⟨rfl, rfl, rfl⟩
    · exact ⟨rfl, rfl, rfl⟩
  unfold bumped at found
  cases registered : w.slotOf? doc with
  | some y =>
    rw [ensureSlot_of_some registered] at found
    exact .inr (raised w y _ found)
  | none =>
    rw [ensureSlot_of_none registered] at found
    obtain ⟨k, at_x, same⟩ := raised _ _ _ found
    have records : ({ w with slots := w.slots ++ [Slot.new doc] }.gaugeDocuments : World).records =
        w.records ++ [Slot.new doc] := by simp [records, gaugeDocuments, Slot.unlocked, Slot.new]
    rw [records] at at_x
    rcases getElem?_concat_iff.1 at_x with old | ⟨-, rfl⟩
    · exact .inr ⟨k, old, same⟩
    · exact .inl same.2.2

/-- Whatever happens, a slot keeps its update, or has none yet, or has a new one drawn. -/
theorem Sane.apply_last (h : w.Sane) (found : (w.apply i).records[x]? = some k') :
    (∃ k, w.records[x]? = some k ∧ k'.doc = k.doc ∧ (k'.isOpen = true → k.isOpen = true) ∧
      k'.lastUpdate = k.lastUpdate) ∨
    k'.lastUpdate = none ∨ ∃ name, k'.doc = .name name ∧ Draws w.gallery (w.apply i) x name := by
  cases h.apply_revised i found with
  | @kept k at_x later same => exact .inl ⟨k, at_x, later.doc, later.isOpen, same⟩
  | @settled k t r fs o u tick running here at_x later current =>
    subst tick here
    refine .inr (.inr ⟨r.doc, ?_, answer_draws running current⟩)
    obtain ⟨a, at_slot, doc⟩ := (h.running _ _ _ running).1.top
    rw [seats_of_records rfl, List.getElem?_map, at_x] at at_slot
    obtain rfl := Option.some.inj at_slot
    exact later.doc.trans doc
  | @edited t fs doc text tick running here of_doc =>
    subst tick
    by_cases named : ∃ name, doc = .name name
    · obtain ⟨name, rfl⟩ := named
      exact .inr (.inr ⟨name, eq_name_of_same of_doc, here ▸ h.edit_draws running⟩)
    · have unnamed : ∀ name, doc ≠ .name name := fun name eq => named ⟨name, eq⟩
      have step : w.apply .tick = w.beginEdit t fs doc text := tick_running running
      rw [step, beginEdit_unnamed w t fs text unnamed] at found
      have records : (((w.bumped doc).abandonPending (w.editBegun doc text).slot).fail t fs
          (.nameNotText doc.typeName)).records = _ := records_abandonPending _
      rw [records] at found
      obtain ⟨k, at_x, rfl⟩ := modify_record found
      rcases bumped_last at_x with none | ⟨k₀, at_x, doc', isOpen, last⟩
      · refine .inr (.inl ?_)
        split
        · exact none
        · exact none
      · refine .inl ⟨k₀, at_x, ?_⟩
        split
        · exact ⟨doc', fun now => isOpen ▸ now, last⟩
        · exact ⟨doc', fun now => isOpen ▸ now, last⟩

/-- An open slot stays open, unless its document is closed. -/
theorem Sane.apply_open (h : w.Sane) {a : Seat} (at_slot : w.seats[x]? = some a) (isOpen : a.isOpen = true)
    (named : a.doc = .name name) : (∃ c, (w.apply i).seats[x]? = some c ∧ c.isOpen = true ∧ c.doc = .name name) ∨
      i = .tick ∧ ∃ t fs, w.current = some (t, fs, .start (.close (.name name))) := by
  rcases h.apply_seats i with same | ⟨tick, t, fs, s, running, after⟩
  · exact .inl ⟨a, same ▸ at_slot, isOpen, named⟩
  · rw [after]
    unfold seatsAfter
    split
    · rename_i doc text
      left
      have raised : ∀ {v : World} {y : SlotId} {n : Nat}, v.seats[x]? = some a →
          ∃ c, (v.modifySlot y fun k => { k with generation := n }).seats[x]? = some c ∧ c.isOpen = true ∧
            c.doc = .name name := by
        intro v y n at_x
        have seats : (v.modifySlot y fun k => { k with generation := n }).seats =
            v.seats.modify y fun a => { a with generation := n } := map_modify v.slots fun _ => rfl
        rw [seats, List.getElem?_modify, at_x]
        refine ⟨_, rfl, ?_⟩
        split
        · exact ⟨isOpen, named⟩
        · exact ⟨isOpen, named⟩
      unfold bumped
      cases registered : w.slotOf? doc with
      | some y =>
        rw [ensureSlot_of_some registered]
        exact raised at_slot
      | none =>
        rw [ensureSlot_of_none registered]
        refine raised ?_
        rw [seats_opened]
        exact getElem?_concat_iff.2 (.inl at_slot)
    · rename_i doc
      by_cases this : doc = .name name
      · exact .inr ⟨tick, t, fs, this ▸ running⟩
      · left
        rw [(removeSlot_seats doc).2]
        split
        · rename_i y registered
          obtain ⟨c, at_y, -, same⟩ := slotOf?_seat registered
          have other : y ≠ x := by
            rintro rfl
            obtain rfl := Option.some.inj (at_y.symm.trans at_slot)
            refine this (eq_name_of_same ?_)
            rw [named] at same
            simp only [DocId.same, decide_eq_true_eq] at same ⊢
            exact same.symm
          refine ⟨a, ?_, isOpen, named⟩
          rw [List.getElem?_modify, at_slot]
          simp [other]
        · exact ⟨a, at_slot, isOpen, named⟩
    · exact .inl ⟨a, at_slot, isOpen, named⟩

/-! ### Agreement -/

/-- An open slot belongs to the document of its update, whose page is the one that the update shows; and a
document without a slot has no preview. -/
structure Agreed (w : World) : Prop where
  shown : ∀ (x : SlotId) k u, w.records[x]? = some k → k.isOpen = true → k.lastUpdate = some u →
    k.doc = .name u.doc ∧ w.gallery.current u.doc = u.artifact.html
  unseen : ∀ name, Vacant w.seats name → w.gallery.previews.find? name = none

/-- The page of an open document stays as it is, unless a new update is drawn for it. -/
theorem Flight.apply_page (h : Flight ms b w) (allowed : i.IsPublic) (found : (w.apply i).records[x]? = some k')
    (isOpen : k'.isOpen = true) (named : k'.doc = .name name) :
    (w.apply i).gallery.current name = w.gallery.current name ∨ Draws w.gallery (w.apply i) x name := by
  have distinct := (h.apply allowed).sane.distinct
  have seat := seat_of_record found
  have drawn : ∀ {y : SlotId} {doc : String}, Draws w.gallery (w.apply i) y doc →
      (∃ c, (w.apply i).seats[y]? = some c ∧ c.isOpen = true ∧ c.doc = .name doc) →
      (w.apply i).gallery.current name = w.gallery.current name ∨ Draws w.gallery (w.apply i) x name := by
    rintro y doc draws ⟨c, at_y, open_y, named_y⟩
    by_cases same : doc = name
    · subst same
      have one : x = y := distinct x y _ c seat at_y isOpen open_y (by simp [named, named_y])
      exact .inr (one ▸ draws)
    · obtain ⟨-, m, -, -, gallery, -⟩ := draws
      left
      rw [gallery]
      exact Gallery.current_render_other _ same m
  rcases h.sane.apply_gallery i with same | ⟨rfl, ⟨doc, shows_⟩ | ⟨t, fs, doc, running⟩⟩
  · exact .inl (by rw [same])
  · cases shows_ with
    | @edit t fs text running =>
      obtain ⟨-, -, a, at_slot, open_a, same, -⟩ := bumped_seats h.sane.distinct (.name doc) text
      rw [← seats_beginEdit t fs (.name doc) text] at at_slot
      have step : w.apply .tick = w.beginEdit t fs (.name doc) text := tick_running running
      exact drawn (h.sane.edit_draws running) ⟨a, step ▸ at_slot, open_a, eq_name_of_same same⟩
    | @answer t fs o r running same current =>
      subst same
      obtain ⟨a, at_slot, open_a, -⟩ := isCurrent_iff.1 current
      obtain ⟨a', at_slot', named_a⟩ := (h.sane.running _ _ _ running).1.top
      obtain rfl := Option.some.inj (at_slot.symm.trans at_slot')
      rcases h.sane.apply_open (i := .tick) at_slot open_a named_a with after | ⟨-, t', fs', closing⟩
      · exact drawn (answer_draws running current) after
      · rw [running] at closing
        cases o <;> cases closing
  · have vacant := (h.close_absent running).vacant
    have other : doc ≠ name := by
      rintro rfl
      exact vacant x _ seat isOpen named
    have gallery : (w.apply .tick).gallery = w.gallery.discard doc := closed_gallery running h.sane.members
    left
    rw [gallery]
    exact Gallery.current_discard_other _ other

theorem Agreed.apply (h : w.Agreed) (flight : Flight ms b w) (allowed : i.IsPublic) : (w.apply i).Agreed := by
  constructor
  · intro x k' u found isOpen last
    rcases flight.sane.apply_last found with ⟨k, at_x, doc, open_k, same⟩ | none | ⟨name, named, draws⟩
    · obtain ⟨named, page⟩ := h.shown x k u at_x (open_k isOpen) (same ▸ last)
      have named' : k'.doc = .name u.doc := doc.trans named
      rcases flight.apply_page allowed found isOpen named' with kept | draws
      · exact ⟨named', kept.trans page⟩
      · exact ⟨named', (draws.page found last).2⟩
    · rw [none] at last
      cases last
    · obtain ⟨rfl, page⟩ := draws.page found last
      exact ⟨named, page⟩
  · intro name vacant
    by_cases seated : ∃ (x : SlotId) (a : Seat), w.seats[x]? = some a ∧ a.isOpen = true ∧ a.doc = .name name
    · obtain ⟨x, a, at_slot, isOpen, named⟩ := seated
      rcases flight.sane.apply_open at_slot isOpen named (i := i) with ⟨c, at_x, open_c, named_c⟩ | ⟨rfl, t, fs, running⟩
      · exact absurd named_c (vacant x c at_x open_c)
      · exact (flight.close_absent running).unseen
    · have before : Vacant w.seats name := fun s a at_slot isOpen named => seated ⟨s, a, at_slot, isOpen, named⟩
      -- an edit of the document would have taken a seat
      refine flight.apply_unseen ⟨before, h.unseen name before⟩ fun e marked of_name => ?_
      cases i with
      | tick =>
        obtain ⟨t, fs, doc, text, running, rfl⟩ := mark?_edited (by simpa [marks] using marked)
        obtain rfl : doc = .name name := of_name
        obtain ⟨-, -, a, at_slot, open_a, same, -⟩ := bumped_seats flight.sane.distinct (.name name) text
        rw [← seats_beginEdit t fs (.name name) text] at at_slot
        have step : w.apply .tick = w.beginEdit t fs (.name name) text := tick_running running
        exact vacant _ a (step ▸ at_slot) open_a (eq_name_of_same same)
      | _ => cases marked

/-- In every state that comes about the gallery has the pages of the last updates, and no others. -/
theorem run_agreed (new : w.IsNew) (blank : w.gallery.previews.entries = []) {inputs : List Input}
    (allowed : ∀ i ∈ inputs, i.IsPublic) : (w.run inputs).Agreed := by
  have kept : ∀ (ms : List Mark) (v : World) (i : Input), Flight ms (w.bench none) v ∧ v.Agreed → i.IsPublic →
      Flight (ms ++ v.marks i) (w.bench none) (v.apply i) ∧ (v.apply i).Agreed :=
    fun ms v i h given => ⟨h.1.apply given, h.2.apply h.1 given⟩
  have first : w.Agreed := by
    constructor
    · intro x k u found
      simp [records, new.slots] at found
    · intro name _
      simp [Previews.find?, blank]
  exact (run_induct (I := fun ms v => Flight ms (w.bench none) v ∧ v.Agreed) kept ⟨new.flight, first⟩ inputs
    allowed).2

end World
end InkPreview.Live
