import InkPreview.Page.Harness
import Mathlib.Data.List.Basic
/-!
Escaped text as the script language reads it: a string of the page ends where it was closed, and stands for the text
that was put into it, without its carriage returns. Main statement: `escaped_denotes`.
-/
namespace InkPreview.Page
open Text

variable {c : Char} {cs rest : List Char}

/-! ### Escapes, character by character -/

/-- A closing tag is parted by a backslash. -/
def parted : List Char → List Char
  | [] => []
  | '<' :: '/' :: cs => '<' :: '\\' :: '/' :: parted cs
  | c :: cs => c :: parted cs

theorem escapeClosing_eq (cs : List Char) : escapeClosing cs = parted cs := by
  show replaceFrom _ _ 0 cs = _
  fun_induction parted cs with
  | case1 => rfl
  | case2 cs ih => simp [replaceFrom, ih]
  | case3 c cs plain ih =>
    have other : List.isPrefixOf ['<', '/'] (c :: cs) = false := by
      cases cs with
      | nil => simp [List.isPrefixOf]
      | cons d cs => simpa [List.isPrefixOf] using fun eq eq' => plain cs eq.symm (by rw [eq'])
    simp [replaceFrom, other, ih]

def escapeChar : Char → List Char
  | '\\' => ['\\', '\\']
  | '"' => ['\\', '"']
  | '\n' => ['\\', 'n']
  | '\r' => []
  | c => [c]

theorem replace_char (x : Char) (new cs : List Char) :
    replace [x] new cs = cs.flatMap fun c => if c = x then new else [c] := by
  show replaceFrom [x] new 0 cs = _
  induction cs with
  | nil => rfl
  | cons c cs ih =>
    by_cases same : c = x
    · simp [replaceFrom, same, ih]
    · simp [replaceFrom, same, Ne.symm same, ih]

theorem escapeScript_eq (cs : List Char) : escapeScript cs = parted (cs.flatMap escapeChar) := by
  unfold escapeScript
  simp only [escapeClosing_eq, replace_char, List.flatMap_assoc]
  congr 2
  funext c
  fun_cases escapeChar c with
  | case1 | case2 | case3 | case4 => simp
  | case5 => simp_all

theorem mem_parted {c : Char} {cs : List Char} (mem : c ∈ parted cs) : c ∈ cs ∨ c = '\\' := by
  fun_induction parted cs with
  | case1 => cases mem
  | case2 cs ih => grind
  | case3 d cs _ ih => grind

theorem head?_parted (cs : List Char) : (parted cs).head? = cs.head? := by
  fun_cases parted cs with
  | case1 | case2 | case3 => rfl

theorem parted_free (cs : List Char) : ¬ ['<', '/'] <:+: parted cs := by
  fun_induction parted cs with
  | case1 => simp
  | case2 cs ih => simp [List.infix_cons_iff, List.cons_prefix_cons, ih]
  | case3 c cs plain ih =>
    rw [List.infix_cons_iff, not_or]
    refine ⟨fun starts => ?_, ih⟩
    obtain ⟨rfl, t, starts⟩ := List.cons_prefix_cons.1 starts
    have head : cs.head? = some '/' := (head?_parted cs).symm.trans (starts ▸ rfl)
    obtain ⟨ds, rfl⟩ := List.head?_eq_some_iff.1 head
    exact plain ds rfl rfl

/-- An escaped text is on one line. -/
theorem escapeScript_line {c : Char} {cs : List Char} (mem : c ∈ escapeScript cs) : c ≠ '\n' ∧ c ≠ '\r' := by
  rw [escapeScript_eq] at mem
  rcases mem_parted mem with mem | rfl
  · obtain ⟨d, -, mem⟩ := List.mem_flatMap.1 mem
    unfold escapeChar at mem
    split at mem <;> grind
  · decide

/-! ### Strings -/

theorem stringLiteral_escape {d : Char} (escape : unescape c = some d) :
    stringLiteral ('\\' :: c :: cs) = (stringLiteral cs).map fun r => (d :: r.1, r.2) := by
  rw [stringLiteral, escape]
  cases stringLiteral cs <;> rfl

theorem stringLiteral_plain (quote : c ≠ '"') (backslash : c ≠ '\\') (line : c ≠ '\n' ∧ c ≠ '\r') :
    stringLiteral (c :: cs) = (stringLiteral cs).map fun r => (c :: r.1, r.2) := by
  rw [stringLiteral, if_neg (not_or.2 line)]
  · cases stringLiteral cs <;> rfl
  · simpa using quote
  · simpa using backslash

/-- The backslash that parts a closing tag is read over. -/
theorem parted_cons (c : Char) (cs : List Char) :
    ∃ t, parted (c :: cs) = c :: t ∧ ∀ rest, stringLiteral (t ++ rest) = stringLiteral (parted cs ++ rest) := by
  by_cases closing : ∃ ds, c = '<' ∧ cs = '/' :: ds
  · obtain ⟨ds, rfl, rfl⟩ := closing
    refine ⟨_, rfl, fun rest => ?_⟩
    exact (stringLiteral_escape rfl).trans (stringLiteral_plain (by decide) (by decide) (by decide)).symm
  · refine ⟨parted cs, ?_, fun rest => rfl⟩
    rw [parted]
    exact fun ds first second => closing ⟨ds, first, second⟩

theorem stringLiteral_escapeScript (cs rest : List Char) :
    stringLiteral (escapeScript cs ++ '"' :: rest) = some (cs.filter (· ≠ '\r'), rest) := by
  rw [escapeScript_eq]
  induction cs with
  | nil => rfl
  | cons c cs ih =>
    have escaped {e d : Char} (escape : unescape e = some d) (other : e ≠ '<') :
        stringLiteral (parted ('\\' :: e :: cs.flatMap escapeChar) ++ '"' :: rest) =
          some (d :: cs.filter (· ≠ '\r'), rest) := by
      rw [parted.eq_3 _ _ (by simp), parted.eq_3 _ _ (by simp [other]), List.cons_append, List.cons_append,
        stringLiteral_escape escape, ih]
      rfl
    rw [List.flatMap_cons]
    fun_cases escapeChar c with
    | case1 => exact escaped rfl (by decide)
    | case2 => exact escaped rfl (by decide)
    | case3 => exact escaped rfl (by decide)
    | case4 => exact ih
    | case5 _ backslash quote line ret =>
      obtain ⟨t, eq, same⟩ := parted_cons c (cs.flatMap escapeChar)
      show stringLiteral (parted (c :: cs.flatMap escapeChar) ++ _) = _
      rw [eq, List.cons_append, stringLiteral_plain quote backslash ⟨line, ret⟩, same, ih]
      simp [show c ≠ '\r' from ret]

/-! ### Pages -/

theorem toList_enclosed {xs ys : List Char} {a c : String} (first : a.toList = xs) (last : c.toList = ys) (b : String) :
    (a ++ b ++ c).toList = xs ++ (b.toList ++ ys) := by
  rw [String.toList_append, String.toList_append, List.append_assoc, first, last]

theorem build_append (tag : String) (m : Mode) (title : Option String) :
    build tag m title = beforeTitle ++ (String.ofList (escapeMarkup (titleOr title).toList) ++ (afterTitle ++ (tag ++
      (style ++ ((payload m).element ++ (scriptOpen ++ ((payload m).expression ++
        (beforePrefix ++ Settings.errorPrefix ++ afterPrefix)))))))) := by
  simp only [build, String.append_assoc]

/-- What stands in front of the content of a page that holds no story. -/
def beforeContent (tag : String) (title : Option String) : String :=
  beforeTitle ++ (String.ofList (escapeMarkup (titleOr title).toList) ++ (afterTitle ++ (tag ++ (style ++ scriptOpen))))

/-- What stands behind the content of every page. -/
def behindContent : String := beforePrefix ++ Settings.errorPrefix ++ afterPrefix

/-- The page of an error, cut where the string of its script opens and where it ends. -/
theorem build_error (tag message : String) (title : Option String) :
    (build tag (.compilerError message) title).toList = (beforeContent tag title).toList ++
      '"' :: (escapeScript (Settings.errorPrefix.toList ++ message.toList) ++ '"' :: behindContent.toList) := by
  have shown : payload (.compilerError message) = .text (escapeScript (Settings.errorPrefix.toList ++ message.toList)) := by
    rw [← String.toList_append]
    rfl
  have cut : build tag (.compilerError message) title =
      beforeContent tag title ++ (payload (.compilerError message)).expression ++ behindContent := by
    rw [build_append, show (payload (.compilerError message)).element = "" from rfl, String.empty_append]
    simp only [beforeContent, behindContent, String.append_assoc]
  have expression : (payload (.compilerError message)).expression.toList =
      ['"'] ++ (escapeScript (Settings.errorPrefix.toList ++ message.toList) ++ ['"']) := by
    have quote : "\"".toList = ['"'] := rfl
    rw [shown, Payload.expression, toList_enclosed quote quote, String.toList_ofList]
  rw [cut, toList_enclosed rfl rfl, expression]
  simp only [List.append_assoc, List.cons_append, List.nil_append]

/-- An escaped text between quotes is one string: it is on one line, holds no closing tag, and is read up to its
own closing quote as the text without its carriage returns. So the page of an error reads the whole message. -/
theorem escaped_denotes (cs rest : List Char) :
    stringLiteral (escapeScript cs ++ '"' :: rest) = some (cs.filter (· ≠ '\r'), rest) ∧
    '\n' ∉ escapeScript cs ∧ '\r' ∉ escapeScript cs ∧
    ¬ ['<', '/'] <:+: '"' :: (escapeScript cs ++ ['"']) ∧
    ∀ (tag message : String) (title : Option String), ∃ page,
      (build tag (.compilerError message) title).toList = (beforeContent tag title).toList ++ '"' :: page ∧
      stringLiteral page =
        some (Settings.errorPrefix.toList ++ message.toList.filter (· ≠ '\r'), behindContent.toList) := by
  refine ⟨stringLiteral_escapeScript cs rest, fun mem => (escapeScript_line mem).1 rfl,
    fun mem => (escapeScript_line mem).2 rfl, ?_, fun tag message title => ?_⟩
  · rw [List.infix_cons_iff, List.infix_concat_iff, escapeScript_eq]
    rintro (starts | ends | inside)
    · exact absurd (List.cons_prefix_cons.1 starts).1 (by decide)
    · obtain ⟨front, eq⟩ := ends
      have last := congrArg List.getLast? eq
      simp at last
    · exact parted_free _ inside
  · refine ⟨_, build_error tag message title, ?_⟩
    have prefixed : (Settings.errorPrefix.toList ++ message.toList).filter (· ≠ '\r') =
        Settings.errorPrefix.toList ++ message.toList.filter (· ≠ '\r') := by
      have kept : Settings.errorPrefix.toList.filter (· ≠ '\r') = Settings.errorPrefix.toList := by decide
      rw [List.filter_append, kept]
    rw [stringLiteral_escapeScript, prefixed]

end InkPreview.Page
