import InkPreview.Document
/-!
Contents of the library. What is stored under a name is what is found there afterwards, also under every other
form of the name; all other names keep their contents. Main statements: `Library.content?_setContent`,
`Library.content?_create`.
-/
namespace InkPreview
namespace DocId

theorem same_iff {a b : DocId} : a.same b = true ↔ a.key = b.key := by simp [same]

theorem same_self (a : DocId) : a.same a = true := same_iff.2 rfl

theorem same_symm {a b : DocId} (h : a.same b = true) : b.same a = true := same_iff.2 (same_iff.1 h).symm

theorem same_congr {a b : DocId} (h : a.same b = true) (c : DocId) : c.same a = c.same b := by
  simp [same, same_iff.1 h]

theorem same_congr_left {a b : DocId} (h : a.same b = true) (c : DocId) : a.same c = b.same c := by
  simp [same, same_iff.1 h]

end DocId

namespace Library
variable {l : Library} {id : DocId}

/-- What is put among the documents is found there under its name, and nothing else is lost. -/
theorem find?_put (d : Document) (ds : List Document) (id : DocId) :
    (put d ds).find? (·.id.same id) = if d.id.same id then some d else ds.find? (·.id.same id) := by
  induction ds with
  | nil => by_cases here : d.id.same id <;> simp [put, here]
  | cons e rest ih =>
    unfold put
    split
    · rename_i same
      rw [List.find?_cons, List.find?_cons, DocId.same_congr_left same]
      by_cases here : d.id.same id <;> simp [here]
    · rename_i other
      by_cases at_e : e.id.same id
      · -- the document in front is the one that is looked for, so it is not the one that is put
        have apart : ¬ d.id.same id := by
          intro here
          rw [DocId.same_congr (DocId.same_symm here)] at at_e
          exact other at_e
        simp [at_e, apart]
      · simp [at_e, ih]

theorem content?_same {a b : DocId} (h : a.same b = true) : l.content? a = l.content? b := by
  simp only [content?, find?, DocId.same_congr h]

theorem content?_put (d : Document) (n : Nat) (id : DocId) :
    ({ l with documents := put d l.documents, nextName := n } : Library).content? id =
      if d.id.same id then some d.content else l.content? id := by
  simp only [content?, find?, find?_put]
  split
  · rfl
  · rfl

theorem content?_create (l : Library) (title : Option String) (content : String) (given : Option DocId) (id : DocId) :
    (l.create title content given).2.content? id =
      if (l.create title content given).1.id.same id then some content else l.content? id :=
  content?_put _ _ id

theorem create_named (l : Library) (title : Option String) (content : String) (given : id.isGiven = true) :
    (l.create title content (some id)).1.id = id := by
  simp [create, given]

/-- Once its content has been set a document has that content, and the others have theirs. -/
theorem content?_setContent (l : Library) (given : id.isGiven = true) (content : String) (other : DocId) :
    (l.setContent id content).2.content? other = if id.same other then some content else l.content? other := by
  unfold setContent
  split
  · rename_i d found
    have named : d.id.same id = true := by simpa using List.find?_some found
    rw [← DocId.same_congr_left named]
    exact content?_put (l := l) { d with content, updatedAt := l.now } l.nextName other
  · rw [content?_create, create_named l none content given]

end Library
end InkPreview
