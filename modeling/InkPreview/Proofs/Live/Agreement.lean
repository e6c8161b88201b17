import InkPreview.Proofs.Live.Gauge
import InkPreview.Proofs.Live.Pages
/-!
What is asked for and what is sent agree. The page that the preview route answers about an open document is
the one of its last update; without a slot a document has the empty page and no preview; and the gauge of open
documents shows their number if measurements were taken when it last changed. Main statement: `pages_agree`.
-/
namespace InkPreview.Live.World
variable {w : World} {name : String}

/-- A request for the preview of the document gets this page. -/
def Answers (w : World) (name html : String) : Prop :=
  ∀ (t : TaskId) (fs : List Frame) (r : Web.Request), Web.Route.find r.method r.decodedPath = .ok (.preview name) →
    w.begin t fs (.request r) =
      w.respond t (.answering :: fs) { Web.Response.html html with cacheControl := some "no-cache" }

theorem answers_current (w : World) (name : String) : w.Answers name (w.gallery.current name) := by
  intro t fs r route
  simp [begin, beginRequest, route, takeRoute]

theorem slotOf?_of_seen (h : w.Agreed) (seen : w.gallery.previews.find? name ≠ none) :
    (w.slotOf? (.name name)).isSome = true := by
  cases registered : w.slotOf? (.name name) with
  | some x => rfl
  | none =>
    refine absurd (h.unseen name fun s a at_slot isOpen named => ?_) seen
    exact slotOf?_none registered at_slot isOpen (by simp [DocId.same, named])

/-- After every run that starts with an empty gallery: the preview route answers, about a document with an
update, the page of its last update, and the empty page about a document without a slot, such as one that has
been closed and not edited since; every preview is of a document with a slot; and once a document has been
opened or closed, the gauge shows the number of slots, provided that measurements were taken then and whenever
a document was opened or closed since. -/
theorem pages_agree {start : World} (new : start.IsNew) (blank : start.gallery.previews.entries = [])
    {inputs : List Input} (allowed : ∀ i ∈ inputs, i.IsPublic) :
    (∀ doc u, (start.run inputs).lastUpdate? doc = some u →
      doc = .name u.doc ∧ (start.run inputs).Answers u.doc u.artifact.html) ∧
    (∀ name, (start.run inputs).slotOf? (.name name) = none →
      (start.run inputs).Answers name ((start.run inputs).gallery.build .empty none)) ∧
    (∀ before after t fs name, inputs = before ++ .tick :: after →
      (start.run before).current = some (t, fs, .start (.close (.name name))) →
      (∀ e, .edited e ∈ (start.run before).tick.marksAlong after → e.doc ≠ .name name) →
      (start.run inputs).slotOf? (.name name) = none) ∧
    (∀ p ∈ (start.run inputs).gallery.previews.entries, ((start.run inputs).slotOf? (.name p.doc)).isSome = true) ∧
    ∀ before after, inputs = before ++ .tick :: after → (start.run before).Registers →
      (start.run before).Measured (.tick :: after) → (start.run inputs).Gauged := by
  have agreed := run_agreed new blank allowed
  refine ⟨?_, ?_, ?_, ?_, ?_⟩
  · intro doc u last
    obtain ⟨x, registered, last⟩ := Option.bind_eq_some_iff.1 last
    obtain ⟨k, found, last⟩ := Option.bind_eq_some_iff.1 last
    obtain ⟨a, seat, isOpen, same⟩ := slotOf?_seat registered
    rw [seats_getElem?, found] at seat
    obtain rfl := Option.some.inj seat
    have record : (start.run inputs).records[x]? = some k.unlocked := by simp [found]
    obtain ⟨named, page⟩ := agreed.shown x k.unlocked u record isOpen last
    have of_doc : k.doc = .name u.doc := named
    refine ⟨eq_name_of_same ?_, page ▸ answers_current _ _⟩
    rw [Slot.seat_doc, of_doc] at same
    simp only [DocId.same, decide_eq_true_eq] at same ⊢
    exact same.symm
  · intro name closed
    have unseen : (start.run inputs).gallery.previews.find? name = none := by
      refine agreed.unseen name fun s a at_slot isOpen named => ?_
      exact slotOf?_none closed at_slot isOpen (by simp [DocId.same, named])
    exact Gallery.current_unseen unseen ▸ answers_current _ _
  · rintro before after t fs name rfl running noEdit
    have flight := run_flight new fun i mem => allowed i (List.mem_append_left _ mem)
    have absent := (flight.apply (i := .tick) trivial).run_absent (flight.close_absent running)
      (fun i mem => allowed i (by simp [mem])) noEdit
    rw [run_append]
    exact slotOf?_vacant absent.vacant
  · intro p mem
    refine slotOf?_of_seen agreed fun none => ?_
    exact List.find?_eq_none.1 none p mem (by simp)
  · rintro before after rfl registers ⟨now, later⟩
    have sane := (new.sane.run fun i mem => allowed i (List.mem_append_left _ mem)).sane
    have first := sane.apply_gauged (i := .tick) now fun none => absurd registers (none rfl)
    rw [run_append]
    exact run_gauged (sane.apply (i := .tick) trivial).sane first (fun i mem => allowed i (by simp [mem])) later

/-- The page of the document that the small editor has been given is that of its update. -/
theorem editing_answered : ∃ u, (sample.run (editing "" 9)).lastUpdate? (.name "a") = some u ∧
    (sample.run (editing "" 9)).Answers "a" u.artifact.html := by
  obtain ⟨shown, -⟩ := pages_agree isNew_sample rfl (isPublic_editing "" 9)
  have last : ∃ u, (sample.run (editing "" 9)).lastUpdate? (.name "a") = some u ∧ u.doc = "a" := ⟨_, rfl, rfl⟩
  obtain ⟨u, last, doc⟩ := last
  obtain ⟨-, answers⟩ := shown _ u last
  exact ⟨u, last, doc ▸ answers⟩

/-- While no measurements are taken, a document is opened and the gauge does not show it. -/
theorem gauge_stands_still :
    (sample.run [.enableMetrics false, .begin (.edit (.name "a") "")]).Registers ∧
    ¬ (sample.run [.enableMetrics false, .begin (.edit (.name "a") ""), .tick]).Gauged := by
  constructor
  · exact ⟨0, [], _, rfl, .inl ⟨_, _, rfl, rfl⟩⟩
  · unfold Gauged
    decide

end InkPreview.Live.World
