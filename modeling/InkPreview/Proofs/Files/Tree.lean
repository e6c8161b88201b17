import InkPreview.Files.Tree
import Mathlib.Tactic.Common
/-!
What the operations on files do to a tree, place by place. Making directories adds directories and changes nothing
else, whether it succeeds or not; a file is created at a free place alone, and moving it takes it to the place that
the path names. Main statements: `makeDirectories_furnished`, `createFile_ok`, `moveFile_ok`.
-/
namespace InkPreview.Files
namespace Tree
variable {t t' : Tree} {p q : Place} {e : Entry}

/-! ### Single places -/

@[simp] theorem at?_nil (t : Tree) : t.at? [] = some .directory := rfl

theorem at?_remove (t : Tree) (below : p ≠ []) (q : Place) : (t.remove p).at? q = if q = p then none else t.at? q := by
  unfold at? remove
  split
  · rename_i root
    have apart : q ≠ p := fun eq => below (eq ▸ List.isEmpty_iff.1 root)
    rw [if_neg apart]
  · induction t.entries with
    | nil => simp
    | cons x rest ih =>
      obtain ⟨r, x⟩ := x
      by_cases gone : r = p
      · subst gone
        by_cases here : q = r
        · simpa [here] using ih
        · simpa [here, List.lookup_cons, beq_false_of_ne here] using ih
      · by_cases here : q = r
        · subst here
          simp [gone]
        · simpa [gone, List.lookup_cons, beq_false_of_ne here] using ih

theorem at?_put (t : Tree) (below : p ≠ []) (e : Entry) (q : Place) :
    (t.put p e).at? q = if q = p then some e else t.at? q := by
  have removed := t.at?_remove below q
  unfold at? at removed ⊢
  by_cases root : q = []
  · subst root
    rw [if_neg (Ne.symm below)]
    rfl
  · simp only [List.isEmpty_iff, root, if_false] at removed ⊢
    simp only [put, List.lookup_append, removed]
    by_cases here : q = p
    · simp [here]
    · simp [here, List.lookup_cons, beq_false_of_ne here]

theorem not_mem_of_free (h : t.at? p = none) : ∀ x ∈ t.entries, x.1 ≠ p := by
  intro x mem eq
  unfold at? at h
  split at h
  · cases h
  · exact absurd (beq_iff_eq.2 eq.symm) (by simpa using List.lookup_eq_none_iff.1 h x mem)

theorem remove_of_free (h : t.at? p = none) : t.remove p = t := by
  have all : t.entries.filter (fun x => x.1 != p) = t.entries :=
    List.filter_eq_self.2 fun x mem => bne_iff_ne.2 (not_mem_of_free h x mem)
  simp [remove, all]

theorem put_of_free (h : t.at? p = none) (e : Entry) : t.put p e = { t with entries := t.entries ++ [(p, e)] } := by
  simp [put, remove_of_free h]

theorem remove_put (t : Tree) (p : Place) (e : Entry) : (t.put p e).remove p = t.remove p := by
  simp [put, remove, List.filter_filter]

theorem put_put (t : Tree) (p : Place) (e e' : Entry) : (t.put p e).put p e' = t.put p e' := by
  unfold put
  rw [show ({ t with entries := (t.remove p).entries ++ [(p, e)] } : Tree).remove p = t.remove p from t.remove_put p e]

/-! ### Furnishing -/

/-- The second tree has the directories, files and links of the first, and at most directories besides. -/
structure Furnished (t t' : Tree) : Prop where
  here : t'.here = t.here
  hereText : t'.hereText = t.hereText
  places : ∀ p, t'.at? p = t.at? p ∨ t.at? p = none ∧ t'.at? p = some .directory

namespace Furnished

theorem refl (t : Tree) : t.Furnished t := ⟨rfl, rfl, fun _ => .inl rfl⟩

theorem trans {t'' : Tree} (h : t.Furnished t') (h' : t'.Furnished t'') : t.Furnished t'' where
  here := h'.here.trans h.here
  hereText := h'.hereText.trans h.hereText
  places p := by
    rcases h'.places p with same | ⟨free, new⟩
    · rw [same]
      exact h.places p
    · rcases h.places p with same | ⟨-, made⟩
      · exact .inr ⟨same ▸ free, new⟩
      · rw [free] at made
        cases made

theorem put_directory (below : p ≠ []) (free : t.at? p = none) : t.Furnished (t.put p .directory) where
  here := rfl
  hereText := rfl
  places q := by
    rw [t.at?_put below]
    by_cases here : q = p
    · subst here
      exact .inr ⟨free, if_pos rfl⟩
    · exact .inl (if_neg here)

/-- The regular files are the same. -/
theorem files (h : t.Furnished t') (p : Place) (content : List UInt8) (mode : Nat) :
    t'.at? p = some (.file content mode) ↔ t.at? p = some (.file content mode) := by
  rcases h.places p with same | ⟨free, made⟩
  · rw [same]
  · simp [free, made]

end Furnished

/-! ### Walks -/

/-- What is found is there: a free place has nothing at it, and a file or a link stands at its place. -/
def Holds (t : Tree) : Found → Prop
  | .free p => p ≠ [] ∧ t.at? p = none
  | .entry p e => e = .directory ∨ p ≠ [] ∧ t.at? p = some e

variable {follow : Bool} {fuel links : Nat} {place : Place} {names : List String} {f : Found}

theorem walk_holds (h : walk t follow fuel links place names = .ok f) : t.Holds f := by
  induction fuel generalizing links place names with
  | zero => cases h
  | succ fuel ih =>
    unfold walk at h
    split at h
    · cases h
      exact .inl rfl
    rename_i n rest
    split at h
    · exact ih h
    split at h
    · exact ih h
    split at h
    · cases h
    dsimp only at h
    split at h
    · rename_i free
      split at h
      · cases h
        exact ⟨by simp, free⟩
      · cases h
    · exact ih h
    · rename_i content mode found
      split at h
      · cases h
        exact .inr ⟨by simp, found⟩
      · cases h
    · rename_i target found
      split at h
      · cases h
        exact .inr ⟨by simp, found⟩
      · split at h
        · cases h
        · exact ih h

/-- What is found once a file stands at a place that was free: what was found before, or the file. -/
theorem walk_put_file (free : t.at? p = none) (below : p ≠ []) {content : List UInt8} {mode : Nat}
    (h : walk (t.put p (.file content mode)) follow fuel links place names = .ok f) :
    walk t follow fuel links place names = .ok f ∨
      f = .entry p (.file content mode) ∧ walk t follow fuel links place names = .ok (.free p) := by
  induction fuel generalizing links place names with
  | zero => cases h
  | succ fuel ih =>
    unfold walk at h ⊢
    split at h
    · exact .inl h
    rename_i n rest
    split at h
    · rename_i skipped
      simpa only [if_pos skipped] using ih h
    rename_i named
    split at h
    · rename_i up
      simpa only [if_neg named, if_pos up] using ih h
    rename_i down
    split at h
    · cases h
    rename_i short
    simp only [if_neg named, if_neg down, if_neg short]
    dsimp only at h
    by_cases here : place ++ [n] = p
    · -- the file is the only thing that was not there before, and nothing is below it
      simp only [t.at?_put below, if_pos here] at h
      split at h
      · rename_i last
        cases h
        have last : rest = [] := List.isEmpty_iff.1 last
        simp [here, free, last]
      · cases h
    · rw [t.at?_put below, if_neg here] at h
      split at h
      · exact .inl h
      · exact ih h
      · exact .inl h
      · split at h
        · rename_i last
          simp only [if_pos last]
          exact .inl h
        · rename_i through
          simp only [if_neg through]
          split at h
          · cases h
          · exact ih h

/-! ### Paths -/

/-- The place that a path names for a file, whatever stands there. A link there is not followed. -/
def Names (t : Tree) (path : String) (p : Place) : Prop :=
  t.find false path = .ok (.free p) ∨ ∃ e, e ≠ .directory ∧ t.find false path = .ok (.entry p e)

variable {path : String}

theorem find_holds (h : t.find follow path = .ok f) : t.Holds f := by
  unfold find at h
  split at h
  · cases h
  split at h
  · cases h
  · exact walk_holds h

/-- No directory is at the place that a path names for a file. -/
theorem Names.vacant (h : t.Names path p) : p ≠ [] ∧ t.at? p ≠ some .directory := by
  rcases h with free | ⟨e, other, found⟩
  · obtain ⟨below, free⟩ : p ≠ [] ∧ t.at? p = none := find_holds free
    exact ⟨below, by simp [free]⟩
  · rcases find_holds found with directory | ⟨below, there⟩
    · exact absurd directory other
    · exact ⟨below, by simp [there, other]⟩

theorem walkFuel_put_file (free : t.at? p = none) (content : List UInt8) (mode : Nat) (names : List String) :
    (t.put p (.file content mode)).walkFuel names = t.walkFuel names := by
  simp [walkFuel, put_of_free free, List.foldl_append]

theorem find_put_file (free : t.at? p = none) (below : p ≠ []) {content : List UInt8} {mode : Nat}
    (h : (t.put p (.file content mode)).find follow path = .ok f) :
    t.find follow path = .ok f ∨ f = .entry p (.file content mode) ∧ t.find follow path = .ok (.free p) := by
  unfold find at h ⊢
  split at h
  · cases h
  split at h
  · cases h
  · rename_i given short
    simp only [if_neg given, if_neg short]
    dsimp only at h
    rw [walkFuel_put_file free] at h
    exact walk_put_file free below h

/-- A file that was put at a free place keeps no path from the place that it names. -/
theorem Names.of_put_file (free : t.at? p = none) (below : p ≠ []) {content : List UInt8} {mode : Nat}
    (h : (t.put p (.file content mode)).Names path q) : t.Names path q := by
  rcases h with found | ⟨e, other, found⟩
  · rcases find_put_file free below found with same | ⟨eq, -⟩
    · exact .inl same
    · cases eq
  · rcases find_put_file free below found with same | ⟨eq, same⟩
    · exact .inr ⟨e, other, same⟩
    · cases eq
      exact .inl same

/-! ### Operations -/

theorem makeDirectory_furnished (h : t.makeDirectory path = .ok t') : t.Furnished t' := by
  unfold makeDirectory at h
  split at h
  · cases h
  split at h
  · rename_i place found
    cases h
    obtain ⟨below, free⟩ : place ≠ [] ∧ t.at? place = none := find_holds found
    exact .put_directory below free
  · cases h
  · cases h

/-- What is answered for a directory that could not be made: nothing is wrong where there is one already. -/
def settle (t : Tree) (path : String) (e : FileFault) : Tree × Except FileFault Unit :=
  match t.isDirectory path with
  | .ok true => (t, .ok ())
  | .ok false => (t, .error e)
  | .error e => (t, .error e)

theorem settle_furnished (t : Tree) (path : String) (e : FileFault) : t.Furnished (t.settle path e).1 := by
  unfold settle
  split
  · exact .refl t
  · exact .refl t
  · exact .refl t

theorem makeDirectories_furnished (t : Tree) (fuel : Nat) (p : Path) : t.Furnished (t.makeDirectories fuel p).1 := by
  induction fuel generalizing t p with
  | zero => exact .refl t
  | succ fuel ih =>
    unfold makeDirectories
    dsimp only
    split
    · rename_i made
      exact makeDirectory_furnished made
    · split
      · exact .refl t
      · have above := ih t p.parent
        split
        · rename_i eq
          exact eq ▸ above
        · rename_i t₁ eq
          rw [eq] at above
          split
          · rename_i made
            exact above.trans (makeDirectory_furnished made)
          · exact above
          · exact above.trans (settle_furnished t₁ p.text _)
          · exact above
    · exact settle_furnished t p.text _
    · exact .refl t

theorem createFile_ok {shown : String} {content : List UInt8} {mode : Nat}
    (h : t.createFile names shown content mode = .ok (p, t')) :
    p ≠ [] ∧ t.at? p = none ∧ t' = t.put p (.file content mode) := by
  unfold createFile at h
  split at h
  · cases h
  split at h
  · cases h
  split at h
  · rename_i place found
    cases h
    obtain ⟨below, free⟩ : p ≠ [] ∧ t.at? p = none := walk_holds found
    exact ⟨below, free, rfl⟩
  · cases h
  · cases h

/-- A file is moved to the place that the path names, and to no directory. -/
theorem moveFile_ok {shown : String} (h : t.moveFile p shown path = .ok t') :
    ∃ target e, t.Names path target ∧ t.at? p = some e ∧ t' = (t.remove p).put target e := by
  unfold moveFile at h
  split at h
  · cases h
  split at h
  · cases h
  split at h
  · cases h
  · rename_i target e e' other found there
    cases h
    exact ⟨target, e', .inr ⟨e, other, found⟩, there, rfl⟩
  · rename_i target e found there
    cases h
    exact ⟨target, e, .inl found, there, rfl⟩
  · cases h
  · cases h

/-- A path that a file is moved to ends in a name. -/
theorem moveFile_named {shown : String} (h : t.moveFile p shown path = .ok t') :
    hasNull path = false ∧ (Path.namesOf path).getLast? ≠ some "" := by
  unfold moveFile at h
  split at h
  · cases h
  rename_i clean
  split at h
  · cases h
  rename_i plain
  refine ⟨by simpa using clean, fun blank => ?_⟩
  have empty : path = "" := by simpa [endsInDots, blank] using plain
  subst empty
  have lost : t.find false "" = .error .notFound := rfl
  simp [lost] at h

end Tree
end InkPreview.Files
