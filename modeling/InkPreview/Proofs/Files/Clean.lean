import InkPreview.Proofs.Files.Tree
import Mathlib.Data.List.Infix
/-!
Paths without null characters. All that is made of such paths is free of them too, so that no operation on them is
refused for a null character.
-/
namespace InkPreview.Files
namespace Tree

theorem hasNull_iff {s : String} : hasNull s = true ↔ Char.ofNat 0 ∈ s.toList := by simp [hasNull]

@[simp] theorem hasNull_append (s s' : String) : hasNull (s ++ s') = (hasNull s || hasNull s') := by
  rw [Bool.eq_iff_iff]
  simp [hasNull_iff]

theorem hasNull_intercalate {sep : String} {parts : List String} (clean : hasNull sep = false)
    (all : ∀ n ∈ parts, hasNull n = false) : hasNull (sep.intercalate parts) = false := by
  induction parts with
  | nil => rfl
  | cons n rest ih =>
    obtain ⟨here, below⟩ := List.forall_mem_cons.1 all
    cases rest with
    | nil => rwa [String.intercalate_singleton]
    | cons n' rest =>
      rw [String.intercalate_cons_cons]
      simp [here, clean, ih below]

theorem mem_of_mem_splitOn {α : Type} [BEq α] [LawfulBEq α] {x c : α} {cs piece : List α} (mem : piece ∈ cs.splitOn x)
    (within : c ∈ piece) : c ∈ cs := by
  induction cs generalizing piece with
  | nil =>
    obtain rfl : piece = [] := by simpa using mem
    exact within
  | cons d cs ih =>
    rw [List.splitOn_cons_eq_if_modifyHead] at mem
    split at mem
    · rcases List.mem_cons.1 mem with rfl | later
      · cases within
      · exact List.mem_cons_of_mem d (ih later within)
    · cases eq : cs.splitOn x with
      | nil => simp [eq] at mem
      | cons first rest =>
        rw [eq, List.modifyHead_cons, List.mem_cons] at mem
        rcases mem with rfl | later
        · rcases List.mem_cons.1 within with rfl | within
          · exact List.mem_cons_self
          · exact List.mem_cons_of_mem d (ih (eq ▸ List.mem_cons_self) within)
        · exact List.mem_cons_of_mem d (ih (eq ▸ List.mem_cons_of_mem first later) within)

theorem hasNull_namesOf {s : String} (clean : hasNull s = false) : ∀ n ∈ Path.namesOf s, hasNull n = false := by
  intro n mem
  obtain ⟨piece, split, rfl⟩ := List.mem_map.1 mem
  rw [← Bool.not_eq_true, hasNull_iff] at clean ⊢
  exact fun within => clean (mem_of_mem_splitOn split (by simpa using within))

end Tree

/-- A path without null characters. -/
structure Path.IsClean (p : Path) : Prop where
  root : Tree.hasNull p.root = false
  names : ∀ n ∈ p.names, Tree.hasNull n = false

namespace Path
variable {path : Path} {s : String}

theorem rootOf_clean (cs : List Char) : Tree.hasNull (rootOf cs) = false := by
  unfold rootOf
  split <;> rfl

theorem IsClean.ofText (clean : Tree.hasNull s = false) : (Path.ofText s).IsClean where
  root := rootOf_clean s.toList
  names n mem := Tree.hasNull_namesOf clean n (List.mem_filter.1 mem).1

theorem IsClean.parent (h : path.IsClean) : path.parent.IsClean where
  root := h.root
  names n mem := h.names n (List.mem_of_mem_dropLast mem)

theorem IsClean.text (h : path.IsClean) : Tree.hasNull path.text = false := by
  unfold Path.text
  split
  · rfl
  · simp [h.root, Tree.hasNull_intercalate (show Tree.hasNull "/" = false from rfl) h.names]

theorem IsClean.name (h : path.IsClean) : Tree.hasNull path.name = false := by
  unfold Path.name
  rw [List.getLastD_eq_getLast?]
  cases last : path.names.getLast? with
  | none => rfl
  | some n => exact h.names n (List.mem_of_getLast? last)

theorem IsClean.join (h : path.IsClean) (clean : Tree.hasNull s = false) : (path.join s).IsClean := by
  have below := IsClean.ofText clean
  unfold Path.join
  dsimp only
  split
  · exact ⟨h.root, fun n mem => (List.mem_append.1 mem).elim (h.names n) (below.names n)⟩
  · exact below

theorem collapse_mem {above names : List String} {n : String} (mem : n ∈ collapse above names) :
    n ∈ above ∨ n ∈ names := by
  induction names generalizing above with
  | nil => exact .inl mem
  | cons m rest ih =>
    rcases @ih (if m = ".." then above.dropLast else above ++ [m]) mem with old | new
    · split at old
      · exact .inl (List.mem_of_mem_dropLast old)
      · rcases List.mem_append.1 old with old | here
        · exact .inl old
        · exact .inr (List.mem_cons.2 (.inl (List.mem_singleton.1 here)))
    · exact .inr (List.mem_cons_of_mem m new)

end Path

namespace Tree
variable {t t' : Tree} {path : String} {e : FileFault}

/-- The current directory has no null characters in its names. -/
structure IsPlaced (t : Tree) : Prop where
  here : ∀ n ∈ t.here, hasNull n = false
  hereText : hasNull t.hereText = false

theorem Furnished.placed (h : t.Furnished t') (placed : t.IsPlaced) : t'.IsPlaced :=
  ⟨h.here ▸ placed.here, h.hereText ▸ placed.hereText⟩

theorem IsPlaced.absolute (h : t.IsPlaced) {p : Path} (clean : p.IsClean) :
    hasNull (t.absolute p).2 = false := by
  have slash : hasNull "/" = false := rfl
  have names : ∀ n ∈ Path.collapse t.here p.names, hasNull n = false := fun n mem =>
    (Path.collapse_mem mem).elim (h.here n) (clean.names n)
  unfold Tree.absolute
  dsimp only
  split
  · split
    · split
      · exact h.hereText
      · have below : hasNull ("/".intercalate ((Path.collapse t.here p.names).drop t.here.length)) = false :=
          hasNull_intercalate slash fun n mem => names n (List.mem_of_mem_drop mem)
        simp [h.hereText, below, slash]
    · simp [hasNull_intercalate slash names, slash]
  · have names : ∀ n ∈ Path.collapse [] p.names, hasNull n = false := fun n mem =>
      (Path.collapse_mem mem).elim (by simp) (clean.names n)
    simp [hasNull_intercalate slash names, clean.root]

theorem isDirectory_error (h : t.isDirectory path = .error e) : e ≠ .nullByte := by
  unfold isDirectory probe at h
  split at h
  · cases h
  split at h <;> cases h
  exact nofun

theorem makeDirectory_error (clean : hasNull path = false)
    (h : t.makeDirectory path = .error e) : e ≠ .nullByte := by
  unfold makeDirectory at h
  rw [clean] at h
  simp only [Bool.false_eq_true, if_false] at h
  split at h <;> cases h <;> exact nofun

theorem settle_error (path : String) {o : OsError} {shown : String} (h : (t.settle path (.os o shown)).2 = .error e) :
    e ≠ .nullByte := by
  unfold settle at h
  split at h
  · cases h
  · cases h
    exact nofun
  · cases h
    exact isDirectory_error ‹_›

theorem makeDirectories_error {fuel : Nat} {p : Path} (clean : p.IsClean)
    (h : (t.makeDirectories fuel p).2 = .error e) : e ≠ .nullByte := by
  induction fuel generalizing t p e with
  | zero =>
    cases h
    exact nofun
  | succ fuel ih =>
    unfold makeDirectories at h
    dsimp only at h
    split at h
    · cases h
    · split at h
      · cases h
        exact nofun
      · split at h
        · rename_i eq
          cases h
          exact ih clean.parent (congrArg Prod.snd eq)
        · split at h
          · cases h
          · cases h
            exact nofun
          · exact settle_error p.text h
          · rename_i eq
            cases h
            exact makeDirectory_error clean.text eq
    · exact settle_error p.text h
    · rename_i eq
      cases h
      exact makeDirectory_error clean.text eq

theorem createFile_error {names : List String} {shown : String} {content : List UInt8} {mode : Nat}
    (clean : hasNull shown = false) (h : t.createFile names shown content mode = .error e) : e ≠ .nullByte := by
  unfold createFile at h
  rw [clean] at h
  simp only [Bool.false_eq_true, if_false] at h
  split at h
  · cases h
    exact nofun
  · split at h <;> cases h <;> exact nofun

theorem moveFile_error {place : Place} {shown : String} (clean : hasNull path = false)
    (h : t.moveFile place shown path = .error e) : e ≠ .nullByte := by
  unfold moveFile at h
  rw [clean] at h
  simp only [Bool.false_eq_true, if_false] at h
  split at h
  · cases h
    exact nofun
  · split at h <;> cases h <;> exact nofun

end Tree
end InkPreview.Files
