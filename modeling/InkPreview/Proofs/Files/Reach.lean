import InkPreview.Proofs.Files.Tree
/-!
What a path leads to. The steps of a walk are always enough, so a path goes on leading to a place when something else is
put there, as long as it does not pass through it. Directories that have been made are there. Main statements:
`find_replaced`, `makeDirectories_made`.
-/
namespace InkPreview.Files
namespace Tree
variable {t t' : Tree} {p q : Place} {e : Entry} {follow : Bool} {fuel fuel' links : Nat} {place : Place}
  {names : List String}
  {f : Found} {path : String}

/-! ### Steps enough -/

/-- The number of names that a link stands for, if it is larger. -/
def longer (n : Nat) (x : Place × Entry) : Nat :=
  match x.2 with
  | .link target => max n (Path.namesOf target).length
  | _ => n

def longestLink (t : Tree) : Nat := t.entries.foldl longer 0

theorem walkFuel_eq (t : Tree) (names : List String) :
    t.walkFuel names = names.length + (linkLimit + 1) * (t.longestLink + 1) + 1 := rfl

theorem le_foldl_longer (es : List (Place × Entry)) (n : Nat) : n ≤ es.foldl longer n := by
  induction es generalizing n with
  | nil => exact Nat.le_refl n
  | cons x rest ih =>
    refine Nat.le_trans ?_ (ih _)
    unfold longer
    split
    · exact Nat.le_max_left _ _
    · exact Nat.le_refl _

theorem length_le_longestLink {target : String} (h : t.at? p = some (.link target)) :
    (Path.namesOf target).length ≤ t.longestLink := by
  unfold at? at h
  split at h
  · cases h
  · obtain ⟨before, after, split, -⟩ := List.lookup_eq_some_iff.1 h
    rw [longestLink, split, List.foldl_append, List.foldl_cons]
    exact Nat.le_trans (Nat.le_max_right _ _) (le_foldl_longer after _)

/-! ### Something else at the end of a path -/

/-- What is found by a path that ends at the place. -/
def foundAt (t : Tree) (p : Place) : Found :=
  match t.at? p with
  | none => .free p
  | some e => .entry p e

/-- A path that ends with blank names leads to the directory before them. -/
theorem walk_blank (blank : names.all (· == "") = true) (enough : names.length < fuel) :
    walk t follow fuel links place names = .ok (.entry place .directory) := by
  induction names generalizing fuel with
  | nil =>
    obtain ⟨fuel, rfl⟩ := Nat.exists_eq_succ_of_ne_zero (Nat.ne_of_gt enough)
    rfl
  | cons n rest ih =>
    obtain ⟨fuel, rfl⟩ := Nat.exists_eq_succ_of_ne_zero (Nat.ne_of_gt (Nat.lt_of_le_of_lt (Nat.zero_le _) enough))
    obtain ⟨rfl, blank⟩ : n = "" ∧ rest.all (· == "") = true := by simpa using blank
    rw [walk]
    exact ih blank (Nat.lt_of_succ_lt_succ enough)

section
variable {n : String} {rest : List String} (named : ¬ (n = "" || n = ".") = true) (down : n ≠ "..")
  (short : ¬ nameLimit < n.utf8ByteSize)
include named down short

/-- Where nothing or a file stands, a path ends, perhaps with slashes behind the name. -/
theorem walk_stops (h : walk t false (fuel + 1) links place (n :: rest) = .ok f)
    (solid : t.at? (place ++ [n]) = none ∨ ∃ content mode, t.at? (place ++ [n]) = some (.file content mode)) :
    rest.all (· == "") = true := by
  unfold walk at h
  simp only [if_neg named, if_neg down, if_neg short] at h
  rcases solid with free | ⟨content, mode, found⟩
  · rw [free] at h
    dsimp only at h
    split at h
    · rename_i blank
      exact blank
    · cases h
  · rw [found] at h
    dsimp only at h
    split at h
    · rename_i nothing
      rw [List.isEmpty_iff.1 nothing]
      rfl
    · cases h

/-- A path that ends, perhaps with slashes behind the name, leads to what stands there. Nothing but a directory is found
behind a slash. -/
theorem walk_ends (blank : rest.all (· == "") = true) (other : ∀ target, t.at? (place ++ [n]) ≠ some (.link target))
    (last : ∀ content mode, t.at? (place ++ [n]) = some (.file content mode) → rest.getLast? ≠ some "")
    (enough : rest.length < fuel) :
    walk t follow (fuel + 1) links place (n :: rest) = .ok (t.foundAt (place ++ [n])) := by
  unfold walk
  simp only [if_neg named, if_neg down, if_neg short]
  cases there : t.at? (place ++ [n]) with
  | none => simp [foundAt, there, blank]
  | some e =>
    cases e with
    | directory =>
      simp only [foundAt, there]
      exact walk_blank blank enough
    | link target => exact absurd there (other target)
    | file content mode =>
      have nothing : rest = [] := by
        rcases List.eq_nil_or_concat rest with rfl | ⟨front, m, rfl⟩
        · rfl
        · obtain rfl : m = "" := by simpa using List.all_eq_true.1 blank m (by simp)
          exact absurd (by simp) (last content mode there)
      simp [foundAt, there, nothing]

end

/-- A path that ends at a place, where nothing or a file stands, leads to whatever else is put there. Nothing but a
directory is found behind a slash. -/
theorem walk_replaced (h : walk t false fuel links place names = .ok f) (ends : f = t.foundAt p)
    (solid : t.at? p = none ∨ ∃ content mode, t.at? p = some (.file content mode))
    (agree : ∀ q, q ≠ p → t'.at? q = t.at? q) (other : ∀ target, t'.at? p ≠ some (.link target))
    (last : ∀ content mode, t'.at? p = some (.file content mode) → names.getLast? ≠ some "")
    (enough : names.length + links * (t'.longestLink + 1) < fuel') :
    walk t' follow fuel' links place names = .ok (t'.foundAt p) := by
  -- what was found stands at the place, or nothing does
  have apart : ∀ q, f ≠ .entry q .directory := by
    rintro q rfl
    rcases solid with free | ⟨content, mode, found⟩
    · simp [foundAt, free] at ends
    · simp [foundAt, found] at ends
  have elsewhere : ∀ q, q ≠ p → f ≠ .free q ∧ ∀ e, f ≠ .entry q e := by
    intro q away
    rw [ends, foundAt]
    split
    · exact ⟨fun eq => away (Found.free.inj eq).symm, fun e => by simp⟩
    · exact ⟨by simp, fun e eq => away (Found.entry.inj eq).1.symm⟩
  induction fuel generalizing links place names fuel' with
  | zero => cases h
  | succ fuel ih =>
    obtain ⟨fuel', rfl⟩ := Nat.exists_eq_succ_of_ne_zero (Nat.ne_of_gt (Nat.lt_of_le_of_lt (Nat.zero_le _) enough))
    have whole := h
    unfold walk at h
    split at h
    · cases h
      exact absurd rfl (apart _)
    rename_i n rest
    have below : rest.length + links * (t'.longestLink + 1) < fuel' := by
      rw [List.length_cons] at enough
      omega
    have lastly : ∀ content mode, t'.at? p = some (.file content mode) → rest.getLast? ≠ some "" := by
      intro content mode there eq
      refine last content mode there ?_
      rw [List.getLast?_cons, eq]
      rfl
    split at h
    · rename_i skipped
      rw [walk, if_pos skipped]
      exact ih h lastly below
    rename_i named
    split at h
    · rename_i up
      rw [walk, if_neg named, if_pos up]
      exact ih h lastly below
    rename_i down
    split at h
    · cases h
    rename_i short
    by_cases here : place ++ [n] = p
    · subst here
      exact walk_ends named down short (walk_stops named down short whole solid) other lastly (by omega)
    · dsimp only at h
      rw [walk, if_neg named, if_neg down, if_neg short, agree _ here]
      dsimp only
      split at h
      · split at h
        · cases h
          exact absurd rfl (elsewhere _ here).1
        · cases h
      · exact ih h lastly below
      · split at h
        · cases h
          exact absurd rfl ((elsewhere _ here).2 _)
        · cases h
      · rename_i target link
        split at h
        · cases h
          exact absurd rfl ((elsewhere _ here).2 _)
        · rename_i middle
          have more : rest.isEmpty = false := by simpa using middle
          simp only [more, Bool.false_and, Bool.false_eq_true, if_false]
          split at h
          · cases h
          · rename_i links
            have bound := length_le_longestLink ((agree _ here).trans link)
            refine ih h (fun content mode there eq => ?_) ?_
            · rw [List.getLast?_append, Option.or_eq_some_iff] at eq
              rcases eq with eq | ⟨none, -⟩
              · exact lastly content mode there eq
              · simp [List.getLast?_eq_none_iff.1 none] at more
            · rw [Nat.succ_mul] at below
              rw [List.length_append]
              omega

/-- A path that leads to the place, where nothing or a file stands, leads to whatever else is put there. -/
theorem find_replaced (h : t.find false path = .ok (t.foundAt p)) (same : t'.here = t.here)
    (solid : t.at? p = none ∨ ∃ content mode, t.at? p = some (.file content mode))
    (agree : ∀ q, q ≠ p → t'.at? q = t.at? q) (other : ∀ target, t'.at? p ≠ some (.link target))
    (last : ∀ content mode, t'.at? p = some (.file content mode) → (Path.namesOf path).getLast? ≠ some "") :
    t'.find follow path = .ok (t'.foundAt p) := by
  unfold find at h ⊢
  split at h
  · cases h
  split at h
  · cases h
  rename_i given short
  simp only [if_neg given, if_neg short, same]
  refine walk_replaced h rfl solid agree other last ?_
  rw [walkFuel_eq, Nat.add_mul]
  omega

/-! ### Directories that have been made -/

theorem makeDirectory_made (h : t.makeDirectory path = .ok t') : t'.isDirectory path = .ok true := by
  unfold makeDirectory at h
  split at h
  · cases h
  rename_i clean
  split at h
  · rename_i place found
    cases h
    obtain ⟨below, free⟩ : place ≠ [] ∧ t.at? place = none := find_holds found
    have there : (t.put place .directory).at? place = some .directory := by rw [t.at?_put below, if_pos rfl]
    have leads : (t.put place .directory).find true path = .ok ((t.put place .directory).foundAt place) :=
      find_replaced (t := t) (by rw [foundAt, free]; exact found) rfl (.inl free)
        (fun q apart => by rw [t.at?_put below, if_neg apart]) (by simp [there]) (by simp [there])
    rw [foundAt, there] at leads
    simp [isDirectory, probe, clean, leads, Except.map]
  · cases h
  · cases h

theorem settle_made {fault : FileFault} (h : t.settle path fault = (t', .ok ())) : t'.isDirectory path = .ok true := by
  unfold settle at h
  split at h
  · rename_i there
    cases h
    exact there
  · cases h
  · cases h

/-- Where making directories has succeeded, the path leads to a directory. -/
theorem makeDirectories_made {path : Path} (h : t.makeDirectories fuel path = (t', .ok ())) :
    t'.isDirectory path.text = .ok true := by
  cases fuel with
  | zero => cases h
  | succ fuel =>
    unfold makeDirectories at h
    dsimp only at h
    split at h
    · rename_i made
      cases h
      exact makeDirectory_made made
    · split at h
      · cases h
      · split at h
        · cases h
        · split at h
          · rename_i made
            cases h
            exact makeDirectory_made made
          · cases h
          · exact settle_made h
          · cases h
    · exact settle_made h
    · cases h

/-! ### What a path passes through -/

/-- The path leads to the place only by way of what stands there. -/
def Passes (t : Tree) (path : String) (p : Place) : Prop := (t.remove p).find false path ≠ .ok (.free p)

/-- A path does not pass through a place that it names, unless there is a link. -/
theorem Names.not_passes (h : t.Names path p) (other : ∀ target, t.at? p ≠ some (.link target)) :
    ¬ t.Passes path p := by
  obtain ⟨below, vacant⟩ := h.vacant
  have solid : t.at? p = none ∨ ∃ content mode, t.at? p = some (.file content mode) := by
    cases there : t.at? p with
    | none => exact .inl rfl
    | some e =>
      cases e with
      | file content mode => exact .inr ⟨content, mode, rfl⟩
      | directory => exact absurd there vacant
      | link target => exact absurd there (other target)
  have found : t.find false path = .ok (t.foundAt p) := by
    rcases h with free | ⟨e, file, found⟩
    · have none : t.at? p = none := (find_holds free).2
      rw [foundAt, none, free]
    · have there : t.at? p = some e := ((find_holds found).resolve_left file).2
      rw [foundAt, there, found]
  have gone : (t.remove p).at? p = none := by rw [t.at?_remove below, if_pos rfl]
  have leads : (t.remove p).find false path = .ok ((t.remove p).foundAt p) :=
    find_replaced found rfl solid (fun q apart => by rw [t.at?_remove below, if_neg apart]) (by simp [gone]) (by simp [gone])
  rw [foundAt, gone] at leads
  exact fun passes => passes leads

/-- A file that has been put at the end of a path is read by that path, unless the path passes
through what was there. -/
theorem readBytes_put {content : List UInt8} {mode : Nat} (names : t.Names path p) (through : ¬ t.Passes path p)
    (clean : hasNull path = false) (last : (Path.namesOf path).getLast? ≠ some "") :
    (t.put p (.file content mode)).readBytes path = .ok content := by
  obtain ⟨below, -⟩ := names.vacant
  have gone : (t.remove p).at? p = none := by rw [t.at?_remove below, if_pos rfl]
  have there : (t.put p (.file content mode)).at? p = some (.file content mode) := by rw [t.at?_put below, if_pos rfl]
  have free : (t.remove p).find false path = .ok ((t.remove p).foundAt p) := by
    rw [foundAt, gone]
    exact Classical.byContradiction through
  have leads : (t.put p (.file content mode)).find true path = .ok ((t.put p (.file content mode)).foundAt p) :=
    find_replaced free rfl (.inl gone)
      (fun q apart => by rw [t.at?_put below, t.at?_remove below, if_neg apart, if_neg apart])
      (by simp [there]) fun _ _ _ => last
  rw [foundAt, there] at leads
  simp [readBytes, clean, leads]

end Tree
end InkPreview.Files
