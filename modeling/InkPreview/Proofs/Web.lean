import InkPreview.Web.Message
import InkPreview.Web.Response
/-!
What messages and requests ask for. A message or a request that asks for an edit names a document:
the name that a message gives counts as given, and no route leads to the text of a document without
a name.
-/
namespace InkPreview

theorem DocId.isGiven_ofJson {v : Json} {id : DocId} (named : DocId.ofJson v = .ok id) (given : v.isGiven = true) :
    id.isGiven = true := by
  cases v with
  | null | list | obj => cases named
  | str | num | bool =>
    cases named
    exact given

namespace Web

/-- A message or a request that asks for an edit names a document. -/
theorem Ask.ofObject_edit {v doc : Json} {text : String} (asks : Ask.ofObject v = .edit doc text) :
    doc.isGiven = true := by
  unfold Ask.ofObject at asks
  split at asks
  · unfold Ask.ofEdit at asks
    dsimp only at asks
    split at asks
    · split at asks
      · rename_i given
        obtain ⟨rfl, -⟩ := Ask.edit.inj asks
        exact given
      · cases asks
    · cases asks
  · unfold Ask.ofView at asks
    dsimp only at asks
    split at asks <;> cases asks
  · cases asks
  · unfold Ask.ofSnippet at asks
    dsimp only at asks
    split at asks <;> cases asks
  · cases asks

theorem Ask.ofText_edit {data text : String} {doc : Json} (asks : Ask.ofText data = .ok (.edit doc text)) :
    doc.isGiven = true := by
  unfold Ask.ofText at asks
  split at asks
  · cases asks
  · cases asks
  · exact Ask.ofObject_edit (Except.ok.inj asks)
  · cases asks

theorem Route.ofNames_named {names : List String} {method doc : String}
    (mem : (method, .updateText doc) ∈ Route.ofNames names) : doc ≠ "" := by
  unfold Route.ofNames at mem
  split at mem
  case h_5 =>
    split at mem
    · cases mem
    · rename_i name named
      obtain ⟨-, rfl⟩ : method = "PUT" ∧ doc = name := by simpa using mem
      exact named
  case h_6 =>
    split at mem
    · cases mem
    · simp at mem
  all_goals simp at mem

/-- No route leads to the text of a document without a name. -/
theorem Route.find_updateText {method path doc : String} (found : Route.find method path = .ok (.updateText doc)) :
    doc ≠ "" := by
  have named : ∀ m, (m, .updateText doc) ∈ Route.candidates path → doc ≠ "" := by
    intro m mem
    unfold Route.candidates at mem
    split at mem
    · split at mem
      · cases mem
      · simp at mem
    · exact Route.ofNames_named mem
  unfold Route.find at found
  split at found
  · split at found <;> cases found
  · split at found
    · rename_i r at_r
      obtain ⟨m, route⟩ := r
      obtain rfl : route = .updateText doc := Except.ok.inj found
      exact named m (List.mem_of_find?_eq_some at_r)
    · cases found

end Web
end InkPreview
