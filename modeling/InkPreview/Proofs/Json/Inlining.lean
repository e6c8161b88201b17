import InkPreview.Json.Token
import InkPreview.Proofs.Page.Literal
/-!
Stories inside a page. A closing tag can only stand in a string of a JSON text, and there its slash may be escaped: the
text that is written into the page has the tokens of the story, whether it is valid or not. Main statement:
`inlined_standsFor`.
-/
namespace InkPreview

namespace Json

variable {p q : Piece} {ts rest rest' : List Token} {cs : List Char} {v w : Datum}

/-! ### Tokens -/

/-- Where a tag can open, an escaped slash is read like a plain one. -/
theorem Lexer.read_closing (l : Lexer) :
    (l.read '<').bind (fun m => (m.read '\\').bind (·.read '/')) = (l.read '<').bind (·.read '/') := by
  obtain ⟨ts, place⟩ := l
  cases place with
  | outside => rfl
  | word w => rfl
  | string us => rfl
  | escape us => rfl
  | code us missing n => rfl

theorem Lexer.readAll_parted (l : Lexer) (cs : List Char) : l.readAll (Page.parted cs) = l.readAll cs := by
  fun_induction Page.parted cs generalizing l with
  | case1 => rfl
  | case2 cs ih =>
    have both := congrArg (Option.bind · (·.readAll cs)) l.read_closing
    simp only [readAll] at ih both ⊢
    simpa only [List.foldlM_cons, Option.bind_assoc, Option.bind_eq_bind, ih] using both
  | case3 c cs _ ih =>
    simp only [readAll] at ih ⊢
    simp only [List.foldlM_cons, ih]

theorem tokens_parted (cs : List Char) : tokens (Page.parted cs) = tokens cs := by
  rw [tokens, tokens, Lexer.readAll_parted]

/-! ### One datum for a text -/

/-- What a word stands for, if it is one that a text may hold. -/
def Datum.ofWord (written : List Char) : Datum :=
  if written = "null".toList then .null
  else if written = "true".toList then .bool true
  else if written = "false".toList then .bool false
  else .number written

theorem Reads.ofWord {written : List Char} (h : Reads p (.word written :: ts) rest)
    (alike : (Piece.value .null).ctorIdx = p.ctorIdx) : p = .value (.ofWord written) ∧ rest = ts := by
  generalize start : Token.word written :: ts = whole at h
  cases h with
  | null | true | false =>
    cases start
    exact ⟨rfl, rfl⟩
  | number number =>
    cases start
    refine ⟨?_, rfl⟩
    rw [Datum.ofWord, if_neg, if_neg, if_neg] <;> rintro rfl <;> exact absurd number (by decide)
  | lastItem | nextItem => exact nomatch alike
  | _ => cases start

/-- Nothing starts where a list or an object ends. -/
theorem Reads.head (h : Reads p ts rest) : ts.head? ≠ some (.mark ']') ∧ ts.head? ≠ some (.mark '\x7d') := by
  induction h with
  | lastItem _ ih => exact ih
  | nextItem _ _ ih => exact ih
  | _ => exact ⟨by simp, by simp⟩

theorem Reads.unique (h : Reads p ts rest) (k : Reads q ts rest') (alike : p.ctorIdx = q.ctorIdx) :
    p = q ∧ rest = rest' := by
  induction h generalizing q rest' with
  | null | true | false =>
    obtain ⟨rfl, rfl⟩ := k.ofWord alike
    exact ⟨rfl, rfl⟩
  | number number =>
    obtain ⟨rfl, rfl⟩ := k.ofWord alike
    have itself : Reads (.value (.number _)) (.word _ :: rest') rest' := .number number
    exact ⟨(itself.ofWord rfl).1, rfl⟩
  | string =>
    cases k with
    | string => exact ⟨rfl, rfl⟩
    | lastItem | nextItem | lastMember | nextMember => exact nomatch alike
  | emptyList =>
    cases k with
    | emptyList => exact ⟨rfl, rfl⟩
    | list k => exact absurd rfl k.head.1
    | lastItem | nextItem => exact nomatch alike
  | list h ih =>
    cases k with
    | emptyList => exact absurd rfl h.head.1
    | list k =>
      obtain ⟨same, rfl⟩ := ih k rfl
      cases same
      exact ⟨rfl, rfl⟩
    | lastItem | nextItem => exact nomatch alike
  | lastItem h ih =>
    cases k with
    | lastItem k =>
      obtain ⟨same, followed⟩ := ih k rfl
      cases same
      cases followed
      exact ⟨rfl, rfl⟩
    | nextItem k _ => cases (ih k rfl).2
    | _ => exact nomatch alike
  | nextItem h _ ih ih' =>
    cases k with
    | lastItem k => cases (ih k rfl).2
    | nextItem k l =>
      obtain ⟨same, followed⟩ := ih k rfl
      cases same
      cases followed
      obtain ⟨same, rfl⟩ := ih' l rfl
      cases same
      exact ⟨rfl, rfl⟩
    | _ => exact nomatch alike
  | emptyObject =>
    cases k with
    | emptyObject => exact ⟨rfl, rfl⟩
    | object k => exact absurd rfl k.head.2
    | lastItem | nextItem => exact nomatch alike
  | object h ih =>
    cases k with
    | emptyObject => exact absurd rfl h.head.2
    | object k =>
      obtain ⟨same, rfl⟩ := ih k rfl
      cases same
      exact ⟨rfl, rfl⟩
    | lastItem | nextItem => exact nomatch alike
  | lastMember h ih =>
    cases k with
    | lastMember k =>
      obtain ⟨same, followed⟩ := ih k rfl
      cases same
      cases followed
      exact ⟨rfl, rfl⟩
    | nextMember k _ => cases (ih k rfl).2
    | _ => exact nomatch alike
  | nextMember h _ ih ih' =>
    cases k with
    | lastMember k => cases (ih k rfl).2
    | nextMember k l =>
      obtain ⟨same, followed⟩ := ih k rfl
      cases same
      cases followed
      obtain ⟨same, rfl⟩ := ih' l rfl
      cases same
      exact ⟨rfl, rfl⟩
    | _ => exact nomatch alike

theorem StandsFor.unique (h : StandsFor cs v) (k : StandsFor cs w) : v = w := by
  obtain ⟨ts, read, h⟩ := h
  obtain ⟨ts', read', k⟩ := k
  obtain rfl := Option.some.inj (read.symm.trans read')
  exact Piece.value.inj (h.unique k rfl).1

example : StandsFor "[-2e3, \x7b\"a\": \"<\\/p>\"\x7d]".toList
    (.list [.number "-2e3".toList, .object [([97], .string [60, 47, 112, 62])]]) :=
  ⟨_, by decide, .list (.nextItem (.number (by decide)) (.lastItem (.object (.lastMember .string))))⟩

theorem standsFor_escapeClosing : StandsFor (Page.escapeClosing cs) v ↔ StandsFor cs v := by
  rw [StandsFor, StandsFor, Page.escapeClosing_eq, tokens_parted]

end Json

namespace Page

/-- What stands in front of the story of a page, and what stands behind it. -/
def beforeStory (tag : String) (title : Option String) : String :=
  beforeTitle ++ (String.ofList (escapeMarkup (titleOr title).toList) ++ (afterTitle ++ (tag ++ (style ++ storyOpen))))

def behindStory : String := storyClose ++ (scriptOpen ++ (storyLookup ++ behindContent))

theorem build_story {m : Mode} {json : List Char} (h : payload m = .story json) (tag : String) (title : Option String) :
    build tag m title = beforeStory tag title ++ (String.ofList json ++ behindStory) := by
  rw [build_append, h]
  simp only [Payload.element, Payload.expression, beforeStory, behindStory, behindContent, String.append_assoc]

/-- The story that a page holds is valid JSON just where the text is, and stands for the same. -/
theorem inlined_standsFor (text : String) :
    ∃ json, ¬ ['<', '/'] <:+: json ∧ ((∃ v, Json.StandsFor json v) ↔ ∃ v, Json.StandsFor text.toList v) ∧
      (∀ v w, Json.StandsFor json v → Json.StandsFor text.toList w → v = w) ∧
      ∀ (tag : String) (title : Option String),
        build tag (.passthrough text) title = beforeStory tag title ++ (String.ofList json ++ behindStory) ∧
        build tag (.compiled text) title = beforeStory tag title ++ (String.ofList json ++ behindStory) := by
  refine ⟨escapeClosing text.toList, ?_, exists_congr fun v => Json.standsFor_escapeClosing, ?_, ?_⟩
  · rw [escapeClosing_eq]
    exact parted_free _
  · intro v w inlined itself
    exact (Json.standsFor_escapeClosing.1 inlined).unique itself
  · exact fun tag title => ⟨build_story rfl tag title, build_story rfl tag title⟩

end Page
end InkPreview
