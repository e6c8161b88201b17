import InkPreview.Page.Elements
import InkPreview.Proofs.Page.Literal
import Mathlib.Data.List.Infix
/-!
Script elements that hold a payload. Text without a closing tag does not end its script; text that is not left inside
of a script in a comment leaves the end to the next end tag. Main statements: `readAll_of_free`,
`scriptText_contained`.
-/
namespace InkPreview.Page

variable {s s' : Spot} {c : Char} {seen cs xs ys rest : List Char}

/-! ### Reading on -/

/-- The place behind a text, if the script's end tag is not in it. -/
def Spot.readAll (s : Spot) (cs : List Char) : Option Spot := cs.foldlM Spot.read s

theorem Spot.readAll_append (s : Spot) (xs ys : List Char) : s.readAll (xs ++ ys) = (s.readAll xs).bind
    (·.readAll ys) :=
  List.foldlM_append

theorem scriptText_append (h : s.readAll xs = some s') :
    scriptText s seen (xs ++ ys) = scriptText s' ((xs.map visible).reverse ++ seen) ys := by
  induction xs generalizing s seen with
  | nil =>
    cases h
    rfl
  | cons c xs ih =>
    obtain ⟨t, step, h⟩ := Option.bind_eq_some_iff.1 (show (s.read c).bind _ = _ from h)
    rw [List.cons_append, scriptText, step]
    refine (ih h).trans ?_
    simp

/-! ### Openings -/

/-- Only letters have another lower case, and that comes behind the capitals. -/
theorem eq_of_toLower {d : Char} (h : c.toLower = d) (early : d.toNat < 'a'.toNat) : c = d := by
  unfold Char.toLower at h
  split at h
  · rename_i upper
    subst h
    simp [UInt32.le_iff_toNat_le, ← Char.toNat_val] at early upper
    omega
  · exact h

theorem lengthen_tag (opening : List Char) : lengthen opening '<' = ['<'] := by simp [lengthen]

theorem lengthen_other (opening : List Char) (other : c ≠ '<') :
    lengthen opening c = [] ∨ lengthen opening c = opening ++ [c.toLower] ∧
      c.toLower ∈ commentOpening ++ scriptOpening ++ scriptClosing := by
  unfold lengthen
  rw [if_neg other]
  split
  · exact .inl rfl
  · dsimp only
    split
    · rename_i starts
      simp only [Bool.or_eq_true, List.isPrefixOf_iff_prefix] at starts
      refine .inr ⟨rfl, ?_⟩
      rcases starts with (starts | starts) | starts
      · simp [starts.subset List.mem_concat_self]
      · simp [starts.subset List.mem_concat_self]
      · simp [starts.subset List.mem_concat_self]
    · exact .inl rfl

theorem read_tag (s : Spot) : s.read '<' = some ⟨s.depth, 0, ['<']⟩ := by
  simp [Spot.read, lengthen_tag, endsName, isTagBlank, commentOpening]

theorem lengthen_quote (opening : List Char) : lengthen opening '"' = [] := by
  rcases lengthen_other opening (c := '"') (by decide) with eq | ⟨-, mem⟩
  · exact eq
  · exact absurd mem (by decide)

theorem read_quote (s : Spot) : s.read '"' = some ⟨s.depth, 0, []⟩ := by
  simp [Spot.read, endsName, isTagBlank, lengthen_quote, commentOpening]

/-! ### Closing tags -/

/-- What a place stands behind is not the start of a closing tag. -/
def Spot.IsFree (s : Spot) (cs : List Char) : Prop :=
  ¬ ['<', '/'] <+: s.opening ∧ (s.opening = ['<'] → cs.head? ≠ some '/')

theorem Spot.IsFree.read (h : s.IsFree (c :: cs)) (free : ¬ ['<', '/'] <:+: c :: cs) :
    ∃ t, s.read c = some t ∧ t.IsFree cs := by
  have start (d : Depth) (n : Nat) : Spot.IsFree ⟨d, n, []⟩ cs := ⟨by simp, by simp⟩
  unfold Spot.read
  rw [if_neg fun ⟨closing, _⟩ => h.1 (closing ▸ by decide)]
  split
  · exact ⟨_, rfl, start _ _⟩
  · dsimp only
    split
    · exact ⟨_, rfl, start _ _⟩
    · split
      · exact ⟨_, rfl, start _ _⟩
      · refine ⟨_, rfl, ?_⟩
        by_cases tag : c = '<'
        · subst tag
          rw [lengthen_tag]
          refine ⟨by simp, fun _ head => free ?_⟩
          obtain ⟨ds, rfl⟩ := List.head?_eq_some_iff.1 head
          exact (List.prefix_append ['<', '/'] ds).isInfix
        · rcases lengthen_other s.opening tag with eq | ⟨eq, -⟩
          · rw [eq]
            exact start _ _
          · rw [eq]
            refine ⟨fun starts => ?_, fun one => ?_⟩
            · rcases List.prefix_concat_iff.1 starts with whole | starts
              · obtain ⟨one, slash⟩ := List.append_inj' (show ['<'] ++ ['/'] = s.opening ++ [_] from whole) rfl
                have slash := eq_of_toLower (List.singleton_inj.1 slash).symm (by decide)
                exact h.2 one.symm (by rw [slash]; rfl)
              · exact h.1 starts
            · obtain ⟨-, last⟩ := List.append_inj' (show s.opening ++ [_] = [] ++ ['<'] from one) rfl
              exact absurd (eq_of_toLower (List.singleton_inj.1 last) (by decide)) tag

theorem Spot.IsFree.readAll (h : s.IsFree cs) (free : ¬ ['<', '/'] <:+: cs) : ∃ t, s.readAll cs = some t := by
  induction cs generalizing s with
  | nil => exact ⟨s, rfl⟩
  | cons c cs ih =>
    obtain ⟨t, step, next⟩ := h.read free
    obtain ⟨t', run⟩ := ih next fun inside => free (inside.trans (List.suffix_cons c cs).isInfix)
    exact ⟨t', Option.bind_eq_some_iff.2 ⟨t, step, run⟩⟩

/-! ### Payloads -/

theorem head?_unifyLines {c : Char} (h : (Text.unifyLines cs).head? = some c) (other : c ≠ '\n') :
    cs.head? = some c := by
  unfold Text.unifyLines at h
  split at h
  · cases h
  · exact absurd (Option.some.inj h).symm other
  · exact absurd (Option.some.inj h).symm other
  · exact h

theorem unifyLines_free (h : ¬ ['<', '/'] <:+: cs) : ¬ ['<', '/'] <:+: Text.unifyLines cs := by
  fun_induction Text.unifyLines cs with
  | case1 => exact h
  | case2 cs ih => simp_all [List.infix_cons_iff, List.cons_prefix_cons]
  | case3 cs _ ih => simp_all [List.infix_cons_iff, List.cons_prefix_cons]
  | case4 c cs line ret ih =>
    rw [List.infix_cons_iff, not_or] at h ⊢
    refine ⟨fun starts => h.1 ?_, ih h.2⟩
    obtain ⟨rfl, t, starts⟩ := List.cons_prefix_cons.1 starts
    have head : cs.head? = some '/' := head?_unifyLines (starts ▸ rfl) (by decide)
    obtain ⟨ds, rfl⟩ := List.head?_eq_some_iff.1 head
    exact ⟨ds, rfl⟩

theorem readAll_closing (s : Spot) : s.readAll scriptClosing = some ⟨s.depth, 0, scriptClosing⟩ := by
  show (s.read '<').bind _ = _
  rw [read_tag]
  cases s.depth with
  | plain | comment | nested => rfl

/-- A comment's opening is spelled in one way only. -/
theorem lengthen_comment {opening : List Char} (starts : lengthen opening c <+: commentOpening) :
    lengthen opening c = [] ∨ c = '<' ∨ lengthen opening c = opening ++ [c] ∧ opening <+: commentOpening := by
  by_cases tag : c = '<'
  · exact .inr (.inl tag)
  · rcases lengthen_other opening tag with eq | ⟨eq, -⟩
    · exact .inl eq
    · rw [eq] at starts
      have mem : c.toLower ∈ commentOpening := starts.subset List.mem_concat_self
      have letters : commentOpening.all (fun d => decide (d.toNat < 'a'.toNat)) := by decide
      have same : c = c.toLower := eq_of_toLower rfl (by simpa using List.all_eq_true.1 letters _ mem)
      exact .inr (.inr ⟨by rw [eq, ← same], (List.prefix_append _ _).trans starts⟩)

/-- Without the opening of a comment, the text of a script stays plain. -/
theorem Spot.readAll_plain (h : s.readAll cs = some s') (plain : s.depth = .plain)
    (begun : s.opening <+: commentOpening → ¬ commentOpening <+: s.opening ++ cs) (free : ¬ commentOpening <:+: cs) :
    s'.depth = .plain := by
  induction cs generalizing s with
  | nil =>
    cases h
    exact plain
  | cons c cs ih =>
    obtain ⟨t, step, h⟩ := Option.bind_eq_some_iff.1 (show (s.read c).bind _ = _ from h)
    have later : ¬ commentOpening <:+: cs := fun inside => free (inside.trans (List.suffix_cons c cs).isInfix)
    have anew : ([] : List Char) <+: commentOpening → ¬ commentOpening <+: [] ++ cs := fun _ starts =>
      later starts.isInfix
    have longer (starts : lengthen s.opening c <+: commentOpening) :
      ¬ commentOpening <+: lengthen s.opening c ++ cs := by
      rcases lengthen_comment starts with eq | rfl | ⟨eq, before⟩
      · rw [eq]
        exact anew (List.nil_prefix)
      · rw [lengthen_tag]
        exact fun there => free there.isInfix
      · rw [eq, List.append_assoc]
        exact begun before
    unfold Spot.read at step
    rw [plain] at step
    split at step
    · cases step
    · rw [if_neg (by simp)] at step
      dsimp only at step
      split at step
      · rename_i opened
        exact absurd (List.prefix_append _ _) (opened.1 ▸ longer (opened.1 ▸ List.prefix_refl _))
      · split at step
        · cases step
          exact ih h rfl anew later
        · cases step
          exact ih h rfl longer later

theorem scriptText_contained (h : Spot.start.readAll cs = some s) (out : s.depth ≠ .nested) (ends : endsName c) :
    scriptText .start [] (cs ++ (scriptClosing ++ c :: rest)) = some (cs.map visible, c :: rest) := by
  have closed : (⟨s.depth, 0, scriptClosing⟩ : Spot).read c = none := by
    unfold Spot.read
    rw [if_pos ⟨rfl, ends⟩]
    cases depth : s.depth with
    | plain | comment => rfl
    | nested => exact absurd depth out
  rw [scriptText_append h, scriptText_append (readAll_closing s), scriptText, closed]
  simp [scriptClosing]

theorem readElement_contained {as : List Attribute} (h : Spot.start.readAll cs = some s) (out : s.depth ≠ .nested) :
    readElement as (cs ++ (scriptClosing ++ '>' :: rest)) = some (⟨as, cs.map visible⟩, rest) := by
  simp [readElement, scriptText_contained h out (c := '>') rfl, readTag]

/-! ### Text between elements -/

/-- Whether no tag of a script starts in a text, whatever follows it. -/
def isInert : List Char → Bool
  | [] => true
  | c :: cs =>
    (c != '<' || match cs with
      | a :: b :: _ => !(a.toLower == 's' && b.toLower == 'c')
      | _ => false) && isInert cs

theorem isInert_append (h : isInert xs) (k : isInert ys) : isInert (xs ++ ys) := by
  induction xs with
  | nil => exact k
  | cons c xs ih =>
    simp only [isInert, List.cons_append, Bool.and_eq_true] at h ⊢
    refine ⟨?_, ih h.2⟩
    by_cases tag : c = '<'
    · rcases xs with _ | ⟨a, _ | ⟨b, xs⟩⟩
      · simp [tag] at h
      · simp [tag] at h
      · exact h.1
    · simp [tag]

theorem isInert_of_not_mem (h : '<' ∉ cs) : isInert cs := by
  induction cs with
  | nil => rfl
  | cons c cs ih =>
    rw [List.mem_cons, not_or] at h
    simp [isInert, Ne.symm h.1, ih h.2]

theorem nextScript_inert (h : isInert xs) : nextScript (xs ++ ys) = nextScript ys := by
  induction xs with
  | nil => rfl
  | cons c xs ih =>
    simp only [isInert, Bool.and_eq_true] at h
    rw [List.cons_append, nextScript, if_neg, ih h.2]
    rintro ⟨rfl, names⟩
    rcases xs with _ | ⟨a, _ | ⟨b, xs⟩⟩
    · simp at h
    · simp at h
    · simp [namesScript] at names h
      grind

theorem scripts_nil (h : nextScript cs = none) : scripts cs = [] := by
  rw [scripts]
  split
  · rfl
  · simp_all

theorem scripts_cons {e : Script} (h : nextScript cs = some (e, rest)) : scripts cs = e :: scripts rest := by
  rw [scripts]
  split
  · simp_all
  · simp_all

end InkPreview.Page
