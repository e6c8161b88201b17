import InkPreview.Proofs.Page.Elements
import InkPreview.Page.Harness
import Mathlib.Data.List.TakeWhile
/-!
The fixed text of a page, character by character, and the script elements that a page comes to have around its payload.
-/
namespace InkPreview.Page

/-! ### Fixed text -/

/-- Lines of text, and the characters they come to with a line feed between them. -/
inductive Lines : List String → List Char → Prop
  | one {cs : List Char} : Lines [String.ofList cs] cs
  | more {s : String} {ss : List String} {cs ds : List Char} (h : Lines (s :: ss) ds) :
      Lines (String.ofList cs :: s :: ss) (cs ++ '\n' :: ds)

theorem Lines.toList {ss : List String} {cs : List Char} (h : Lines ss cs) : (joinLines ss).toList = cs := by
  unfold joinLines
  induction h with
  | one => rw [String.intercalate_singleton, String.toList_ofList]
  | more _ ih =>
    rw [String.intercalate_cons_cons, String.toList_append, String.toList_append, ih, String.toList_ofList]
    simp

/-- What holds of the characters of some lines holds of the text. -/
theorem Lines.holds {ss : List String} {cs : List Char} (h : Lines ss cs) {P : List Char → Prop} (p : P cs) :
    P (joinLines ss).toList := by
  rw [h.toList]
  exact p

/-- What holds of the characters of a text holds of the text. -/
theorem text_holds {cs : List Char} {P : List Char → Prop} (p : P cs) : P (String.ofList cs).toList := by
  rw [String.toList_ofList]
  exact p

/-- Text between elements that stays as it is when line ends are unified. -/
def IsPlain (cs : List Char) : Prop := '\r' ∉ cs ∧ isInert cs

instance (cs : List Char) : Decidable (IsPlain cs) := inferInstanceAs (Decidable (_ ∧ _))

theorem isPlain_beforeTitle : IsPlain beforeTitle.toList := by
  unfold beforeTitle
  apply Lines.holds
  · repeat first | exact .one | apply Lines.more
  · decide

theorem isPlain_afterTitle : IsPlain afterTitle.toList := text_holds (by decide)

theorem isPlain_style : IsPlain style.toList := by
  unfold style
  apply Lines.holds
  · repeat first | exact .one | apply Lines.more
  · decide +kernel

/-- A text that ends as every page does: code without tags, code with tags that leads a script back to where it
was, then the end of the page. -/
def IsClosing (cs : List Char) : Prop :=
  let code := cs.take (cs.length - pageEnd.length)
  let tagged := code.dropWhile (· != '<')
  cs.drop (cs.length - pageEnd.length) = pageEnd ∧ (cs.all fun c => c != '\r' && c != '\x00') ∧
    (code.takeWhile (· != '<')).all (· != '>') ∧ tagged.head? = some '<' ∧
    ∀ d ∈ [Depth.plain, .comment, .nested], Spot.readAll ⟨d, 0, []⟩ tagged = some ⟨d, 0, []⟩

instance (cs : List Char) : Decidable (IsClosing cs) := inferInstanceAs (Decidable (_ ∧ _))

theorem Lines.isClosing {ss ts : List String} {cs ds es : List Char} (h : Lines ss cs) (k : Lines ts ds)
    (closing : IsClosing (cs ++ es ++ ds)) : IsClosing (joinLines ss ++ String.ofList es ++ joinLines ts).toList := by
  rw [String.toList_append, String.toList_append, h.toList, k.toList, String.toList_ofList]
  exact closing

theorem isClosing : IsClosing (beforePrefix ++ Settings.errorPrefix ++ afterPrefix).toList := by
  unfold beforePrefix Settings.errorPrefix afterPrefix
  dsimp only
  apply Lines.isClosing
  · repeat first | exact .one | apply Lines.more
  · repeat first | exact .one | apply Lines.more
  · decide +kernel

theorem scriptCode_append : (beforePrefix ++ Settings.errorPrefix ++ afterPrefix).toList = scriptCode ++ pageEnd := by
  rw [← isClosing.1]
  exact (List.take_append_drop _ _).symm

theorem mem_closing {c : Char} (mem : c ∈ scriptCode ++ pageEnd) : c ≠ '\r' ∧ c ≠ '\x00' := by
  rw [← scriptCode_append] at mem
  simpa using List.all_eq_true.1 isClosing.2.1 c mem

/-- Text without tags leads nowhere else. -/
theorem readAll_calm {d : Depth} {n : Nat} {cs : List Char} (calm : '<' ∉ cs ∧ '>' ∉ cs) :
    ∃ m, Spot.readAll ⟨d, n, []⟩ cs = some ⟨d, m, []⟩ := by
  induction cs generalizing n with
  | nil => exact ⟨n, rfl⟩
  | cons c cs ih =>
    simp only [List.mem_cons, not_or] at calm
    obtain ⟨m, run⟩ := ih (n := if c = '-' then n + 1 else 0) ⟨calm.1.2, calm.2.2⟩
    refine ⟨m, Option.bind_eq_some_iff.2 ⟨_, ?_, run⟩⟩
    simp [Spot.read, lengthen, scriptClosing, scriptOpening, commentOpening, Ne.symm calm.1.1, Ne.symm calm.2.1]

/-- The dashes in front of a tag do not count. -/
theorem readAll_dashes {d : Depth} {n : Nat} {cs : List Char} (tag : cs.head? = some '<') :
    Spot.readAll ⟨d, n, []⟩ cs = Spot.readAll ⟨d, 0, []⟩ cs := by
  obtain ⟨ds, rfl⟩ := List.head?_eq_some_iff.1 tag
  simp only [Spot.readAll, List.foldlM_cons, read_tag]

/-- The code behind the value that is read leads a script back to where it was. -/
theorem readAll_code (d : Depth) : Spot.readAll ⟨d, 0, []⟩ scriptCode = some ⟨d, 0, []⟩ := by
  obtain ⟨-, -, calm, tag, tagged⟩ := isClosing
  have front : '<' ∉ scriptCode.takeWhile (· != '<') ∧ '>' ∉ scriptCode.takeWhile (· != '<') :=
    ⟨fun mem => by simpa using List.mem_takeWhile_imp mem, fun mem => by simpa using List.all_eq_true.1 calm _ mem⟩
  obtain ⟨n, front⟩ := readAll_calm (d := d) (n := 0) front
  rw [← List.takeWhile_append_dropWhile (p := (· != '<')) (l := scriptCode), Spot.readAll_append, front,
    Option.bind_some]
  refine (readAll_dashes tag).trans (tagged d ?_)
  cases d with
  | plain | comment | nested => decide

end InkPreview.Page
