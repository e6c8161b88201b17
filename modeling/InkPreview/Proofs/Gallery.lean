import InkPreview.Gallery
/-!
Pages in the gallery. The page that a rendering hands out is the document's current page from then on, also
when it was there before or is only a placeholder; a document whose preview is discarded is back at the empty
page. Other documents keep their pages. Main statements: `Gallery.current_render`, `Gallery.find?_render_other`.
-/
namespace InkPreview
namespace Previews
variable {p : Previews} {doc name : String}

theorem find?_remove (p : Previews) (doc : String) : (p.remove doc).find? doc = none := by
  simp [remove, find?, List.find?_filter]

theorem find?_remove_other (p : Previews) (other : doc ≠ name) : (p.remove doc).find? name = p.find? name := by
  have same : (fun x : Preview => decide ((x.doc != doc) = true ∧ (x.doc == name) = true)) = fun x => x.doc == name := by
    funext x
    by_cases here : x.doc = name
    · simp [here, Ne.symm other]
    · simp [here]
  simp only [remove, find?]
  rw [List.find?_filter, same]

theorem find?_ensure_other (p : Previews) (other : doc ≠ name) : (p.ensure doc).find? name = p.find? name := by
  unfold ensure
  split
  · rfl
  · simp only [find?]
    rw [List.find?_append]
    simp [Preview.blank, other]

theorem find?_ensure_self (p : Previews) (doc : String) : ∃ s, (p.ensure doc).find? doc = some s := by
  unfold ensure
  split
  · rename_i there
    exact Option.isSome_iff_exists.1 there
  · rename_i missing
    refine ⟨Preview.blank doc, ?_⟩
    have none : p.find? doc = none := by simpa using missing
    simp only [find?] at none ⊢
    rw [List.find?_append, none]
    simp [Preview.blank]

/-- What is recorded for a document is found in its preview, and in no other. -/
theorem find?_record (p : Previews) (doc content : String) (mode : Mode) (a : Artifact) (name : String) :
    (p.record doc content mode a).find? name = ((p.ensure doc).find? name).map fun s =>
      if s.doc == doc then ⟨doc, some content, some mode, some a, s.count + 1⟩ else s := by
  have kept : ((fun s : Preview => s.doc == name) ∘ fun s : Preview =>
      if s.doc == doc then ⟨doc, some content, some mode, some a, s.count + 1⟩ else s) = fun s => s.doc == name := by
    funext s
    by_cases here : s.doc = doc
    · simp [here]
    · simp [here]
  simp only [record, find?]
  rw [List.find?_map, kept]

theorem find?_record_other (p : Previews) (other : doc ≠ name) (content : String) (mode : Mode) (a : Artifact) :
    (p.record doc content mode a).find? name = p.find? name := by
  rw [find?_record, find?_ensure_other p other]
  cases found : p.find? name with
  | none => rfl
  | some s =>
    have named : s.doc = name := by simpa using List.find?_some found
    simp [named, Ne.symm other]

theorem artifact?_record (p : Previews) (doc content : String) (mode : Mode) (a : Artifact) :
    (p.record doc content mode a).artifact? doc = some a := by
  obtain ⟨s, found⟩ := find?_ensure_self p doc
  have named : s.doc = doc := by simpa using List.find?_some found
  simp [artifact?, find?_record, found, named]

end Previews

namespace Gallery
variable {g : Gallery} {doc name : String}

theorem tag_render (g : Gallery) (doc : String) (mode : Mode) : (g.render doc mode).2.2.tag = g.tag := by
  unfold render
  split
  · split
    · rfl
    · rfl
  · dsimp only
    split
    · rfl
    · rfl

/-- To render a page of a document leaves the previews of the others as they are. -/
theorem find?_render_other (g : Gallery) (other : doc ≠ name) (mode : Mode) :
    (g.render doc mode).2.2.previews.find? name = g.previews.find? name := by
  unfold render
  split
  · split
    · rfl
    · rfl
  · dsimp only
    split
    · rfl
    · exact Previews.find?_record_other _ other _ _ _

/-- The page that is handed out is the one that is there afterwards. -/
theorem current_render (g : Gallery) (doc : String) (mode : Mode) :
    (g.render doc mode).2.2.current doc = (g.render doc mode).1.html := by
  unfold render
  split
  · split
    · rename_i a found
      simp [current, found]
    · rename_i missing
      simp [current, missing, fresh, build]
  · dsimp only
    split
    · rename_i a kept
      obtain ⟨-, found⟩ := Option.ite_none_right_eq_some.1 kept
      simp [current, found]
    · simp [current, Previews.artifact?_record, fresh]

theorem current_unseen (unseen : g.previews.find? name = none) : g.current name = g.build .empty none := by
  simp [current, Previews.artifact?, unseen]

theorem current_same {h : Gallery} (tag : h.tag = g.tag) (same : h.previews.find? name = g.previews.find? name) :
    h.current name = g.current name := by
  simp [current, Previews.artifact?, same, build, tag]

theorem current_render_other (g : Gallery) (other : doc ≠ name) (mode : Mode) :
    (g.render doc mode).2.2.current name = g.current name :=
  current_same (tag_render g doc mode) (find?_render_other g other mode)

theorem current_discard_other (g : Gallery) (other : doc ≠ name) : (g.discard doc).current name = g.current name :=
  current_same rfl (Previews.find?_remove_other _ other)

end Gallery
end InkPreview
