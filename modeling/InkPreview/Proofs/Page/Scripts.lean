import InkPreview.Page.StoryRuntime
import InkPreview.Proofs.Page.Layout
import InkPreview.Proofs.Rendering
/-!
The script elements of a page. A payload never ends the script that holds it. If it leaves that script outside of a
script in a comment, the script ends where the page closes it and the page has the scripts that it is written with;
otherwise the rest of the page is swallowed. Main statement: `scripts_build`.
-/
namespace InkPreview.Page

variable {cs body before after tag xs ys : List Char} {as : List Attribute} {s t : Spot} {d : Depth}

/-! ### Elements in a text -/

theorem nextScript_tag (inert : isInert before) (named : tag.head?.any endsName)
    (opened : readTag [] .between (tag ++ cs) = some (as, cs)) :
    nextScript (before ++ (scriptOpening ++ (tag ++ cs))) = readElement as cs := by
  obtain ⟨c, ts, rfl⟩ : ∃ c ts, tag = c :: ts := by
    cases tag with
    | nil => simp at named
    | cons c ts => exact ⟨c, ts, rfl⟩
  rw [nextScript_inert inert]
  show nextScript ('<' :: 's' :: 'c' :: 'r' :: 'i' :: 'p' :: 't' :: (c :: ts ++ cs)) = _
  rw [nextScript, if_pos]
  · show (readTag [] .between (c :: ts ++ cs)).bind _ = _
    rw [opened, Option.bind_some]
  · refine ⟨rfl, ?_⟩
    have ends : endsName c = true := named
    simp [namesScript, ends]

/-- A script whose text is read to the end is closed by the next end tag, unless it is left in a comment's script. -/
theorem scripts_element (tag body after : List Char) (inert : isInert before) (named : tag.head?.any endsName)
    (opened : ∀ cs, readTag [] .between (tag ++ cs) = some (as, cs)) (h : Spot.start.readAll body = some s)
    (out : s.depth ≠ .nested) :
    scripts (before ++ (scriptOpening ++ (tag ++ (body ++ (scriptClosing ++ '>' :: after))))) =
      ⟨as, body.map visible⟩ :: scripts after := by
  refine scripts_cons ?_
  rw [nextScript_tag inert named (opened _), readElement_contained h out]

theorem scriptText_readAll {seen : List Char} (h : s.readAll cs = some t) : scriptText s seen cs = none := by
  rw [← List.append_nil cs, scriptText_append h]
  rfl

theorem scripts_unclosed (tag : List Char) (inert : isInert before) (named : tag.head?.any endsName)
    (opened : ∀ cs, readTag [] .between (tag ++ cs) = some (as, cs)) (h : Spot.start.readAll cs = some s) :
    scripts (before ++ (scriptOpening ++ (tag ++ cs))) = [] := by
  refine scripts_nil ?_
  rw [nextScript_tag inert named (opened _)]
  simp [readElement, scriptText_readAll h]

/-! ### Line ends -/

theorem unifyLines_append_of_not_mem (h : '\r' ∉ xs) (ys : List Char) :
    Text.unifyLines (xs ++ ys) = xs ++ Text.unifyLines ys := by
  induction xs with
  | nil => rfl
  | cons c xs ih =>
    rw [List.mem_cons, not_or] at h
    rw [List.cons_append, Text.unifyLines, ih h.2]
    · rfl
    · rintro _ rfl
      exact absurd rfl h.1
    · rintro rfl
      exact absurd rfl h.1

/-- A text that does not start with a line feed cannot share a line end with what stands before it. -/
theorem unifyLines_append_of_head (h : ys.head? ≠ some '\n') (xs : List Char) :
    Text.unifyLines (xs ++ ys) = Text.unifyLines xs ++ Text.unifyLines ys := by
  fun_induction Text.unifyLines xs with
  | case1 => rfl
  | case2 xs ih => rw [List.cons_append, List.cons_append, Text.unifyLines, ih, List.cons_append]
  | case3 xs alone ih =>
    rw [List.cons_append, Text.unifyLines, ih, List.cons_append]
    rintro rest eq
    cases xs with
    | nil => exact h (congrArg List.head? eq)
    | cons d xs => exact alone xs (by rw [(List.cons.inj eq).1])
  | case4 c xs both ret ih =>
    rw [List.cons_append, Text.unifyLines, ih, List.cons_append]
    · exact fun _ eq _ => ret eq
    · exact ret

/-! ### The pieces of a page -/

/-- The characters of a payload as they stand in the page. -/
def Payload.chars : Payload → List Char
  | story json => json
  | text content => content

def runtimeScript (url : String) : Script := ⟨[⟨"src".toList, Text.unifyLines url.toList⟩], []⟩

def storyScript (json : List Char) : Script :=
  ⟨[⟨"type".toList, "application/json".toList⟩, storyId], (Text.unifyLines json).map visible⟩

/-- The script of the page, around the expression for its content. -/
def codeScript (expression : List Char) : Script := ⟨[], scriptStart ++ (expression ++ scriptCode)⟩

/-- The scripts that a page is written with behind the one of the story runtime. -/
def Payload.scripts : Payload → List Script
  | story json => [storyScript json, codeScript storyLookup.toList]
  | text content => [codeScript ('"' :: (content.map visible ++ ['"']))]

def indent : List Char := "\n    ".toList
def runtimeTagOpen : List Char := " src=\"".toList
def storyTag : List Char := " type=\"application/json\" id=\"story-json\">".toList

theorem urlTag_chars (url : String) :
    (urlTag url).toList = scriptOpening ++ (runtimeTagOpen ++ (url.toList ++ ('"' :: '>' :: (scriptClosing ++ ['>'])))) := by
  have opened : "<script src=\"".toList = scriptOpening ++ runtimeTagOpen := by decide
  have closed : "\"></script>".toList = '"' :: '>' :: (scriptClosing ++ ['>']) := by decide
  exact (toList_enclosed opened closed url).trans (List.append_assoc ..)

theorem storyOpen_chars : storyOpen.toList = indent ++ (scriptOpening ++ storyTag) := by decide

theorem storyClose_chars : storyClose.toList = scriptClosing ++ ['>', '\n'] := by decide

theorem scriptOpen_chars : scriptOpen.toList = indent ++ (scriptOpening ++ ('>' :: scriptStart)) := by decide

theorem readTag_quoted {v : List Char} (plain : '"' ∉ v) (n w : List Char) :
    readTag as (.quoted '"' n w) (v ++ '"' :: cs) = readTag (as ++ [⟨n, w ++ v⟩]) .between cs := by
  induction v generalizing w with
  | nil => simp [readTag]
  | cons c v ih =>
    rw [List.mem_cons, not_or] at plain
    rw [List.cons_append, readTag, if_neg (Ne.symm plain.1), ih plain.2]
    simp

theorem readTag_runtime {url : List Char} (plain : '"' ∉ url) (cs : List Char) :
    readTag [] .between (runtimeTagOpen ++ (url ++ '"' :: '>' :: cs)) = some ([⟨"src".toList, url⟩], cs) := by
  show readTag [] (.quoted '"' ['s', 'r', 'c'] []) (url ++ '"' :: '>' :: cs) = _
  rw [readTag_quoted plain]
  rfl

theorem readTag_story (cs : List Char) :
    readTag [] .between (storyTag ++ cs) = some ([⟨"type".toList, "application/json".toList⟩, storyId], cs) := by
  rfl

theorem mem_unifyLines {c : Char} (mem : c ∈ Text.unifyLines xs) : c ∈ xs ∨ c = '\n' := by
  fun_induction Text.unifyLines xs with
  | case1 => cases mem
  | case2 xs ih | case3 xs _ ih => grind
  | case4 d xs _ _ ih => grind

theorem tag_escapeMarkup (xs : List Char) : '<' ∉ escapeMarkup xs := by
  intro mem
  obtain ⟨d, -, mem⟩ := List.mem_flatMap.1 mem
  unfold escapeMarkupChar at mem
  split at mem
  case h_6 _ _ tag _ _ _ => exact tag (List.mem_singleton.1 mem).symm
  all_goals exact absurd mem (by decide)

/-- What stands in front of the style: the title and the script of the story runtime. -/
theorem scripts_front {title url : List Char} (free : '<' ∉ title) (plain : '"' ∉ url) (cs : List Char) :
    scripts (beforeTitle.toList ++ (title ++ (afterTitle.toList ++ (scriptOpening ++ (runtimeTagOpen ++ (url ++
      ('"' :: '>' :: (scriptClosing ++ '>' :: cs)))))))) = ⟨[⟨"src".toList, url⟩], []⟩ :: scripts cs := by
  have inert : isInert (beforeTitle.toList ++ (title ++ afterTitle.toList)) :=
    isInert_append isPlain_beforeTitle.2 (isInert_append (isInert_of_not_mem free) isPlain_afterTitle.2)
  have element := scripts_element (runtimeTagOpen ++ (url ++ ['"', '>'])) [] cs inert (by rfl)
    (fun cs => by simpa using readTag_runtime plain cs) rfl (by decide)
  simpa using element

/-! ### Behind the style -/

def pageTail : List Char := "\n</body>\n</html>\n".toList

theorem pageEnd_eq : pageEnd = scriptClosing ++ '>' :: pageTail := by decide

theorem scripts_tail : scripts pageTail = [] := by
  refine scripts_nil ?_
  have passed : nextScript (pageTail ++ []) = nextScript [] := nextScript_inert (by decide)
  rwa [List.append_nil] at passed

theorem isInert_style_indent : isInert (style.toList ++ indent) :=
  isInert_append isPlain_style.2 (by decide)

theorem visible_scriptStart : scriptStart.map visible = scriptStart := by decide

theorem visible_scriptCode : scriptCode.map visible = scriptCode :=
  (List.map_congr_left fun _ mem => if_neg (mem_closing (List.mem_append_left _ mem)).2).trans (List.map_id _)

/-- The script of the page, if reading its expression leads back to the start. -/
theorem scripts_code (before : List Char) {expression : List Char} (inert : isInert before)
    (h : Spot.start.readAll (scriptStart ++ expression) = some ⟨d, 0, []⟩) (out : d ≠ .nested) :
    scripts (before ++ (scriptOpening ++ ('>' :: (scriptStart ++ (expression ++ (scriptCode ++ pageEnd)))))) =
      [codeScript (expression.map visible)] := by
  have whole : Spot.start.readAll (scriptStart ++ (expression ++ scriptCode)) = some ⟨d, 0, []⟩ := by
    rw [← List.append_assoc, Spot.readAll_append, h, Option.bind_some, readAll_code]
  have element := scripts_element ['>'] _ pageTail inert rfl (fun cs => rfl) whole out
  rw [scripts_tail] at element
  rw [pageEnd_eq]
  simpa only [List.map_append, List.append_assoc, List.cons_append, List.nil_append, visible_scriptStart,
    visible_scriptCode, codeScript] using element

theorem readAll_lookup : Spot.start.readAll (scriptStart ++ storyLookup.toList) = some ⟨.plain, 0, []⟩ := by
  decide

theorem readAll_quoted {content : List Char} (h : Spot.start.readAll content = some s) :
    Spot.start.readAll (scriptStart ++ ('"' :: (content ++ ['"']))) = some ⟨s.depth, 0, []⟩ := by
  have opened : Spot.start.readAll (scriptStart ++ ['"']) = some Spot.start := by decide
  rw [show scriptStart ++ ('"' :: (content ++ ['"'])) = scriptStart ++ ['"'] ++ content ++ ['"'] by simp,
    Spot.readAll_append, Spot.readAll_append, opened, Option.bind_some, h, Option.bind_some, Spot.readAll,
    List.foldlM_cons, read_quote]
  rfl

/-- A story is followed by the script of the page. -/
theorem scripts_story {json : List Char} (h : Spot.start.readAll json = some s) (out : s.depth ≠ .nested) :
    scripts (style.toList ++ (storyOpen.toList ++ (json ++ (storyClose.toList ++ (scriptOpen.toList ++
      (storyLookup.toList ++ (scriptCode ++ pageEnd))))))) =
      [⟨[⟨"type".toList, "application/json".toList⟩, storyId], json.map visible⟩, codeScript storyLookup.toList] := by
  have code := scripts_code ('\n' :: indent) (by decide) readAll_lookup (by decide)
  have visible : storyLookup.toList.map visible = storyLookup.toList := by decide
  rw [visible] at code
  have story := scripts_element storyTag json
    ('\n' :: indent ++ (scriptOpening ++ ('>' :: (scriptStart ++ (storyLookup.toList ++ (scriptCode ++ pageEnd))))))
    isInert_style_indent (by rfl) readTag_story h out
  rw [code] at story
  rw [storyOpen_chars, storyClose_chars, scriptOpen_chars]
  simpa only [List.append_assoc, List.cons_append, List.nil_append] using story

/-- An end tag inside of a script in a comment only leads back into the comment. -/
theorem readAll_nested_closing (nested : s.depth = .nested) (cs : List Char) :
    s.readAll (scriptClosing ++ '>' :: cs) = Spot.readAll ⟨.comment, 0, []⟩ cs := by
  have back : Spot.read ⟨.nested, 0, scriptClosing⟩ '>' = some ⟨.comment, 0, []⟩ := rfl
  rw [Spot.readAll_append, readAll_closing, Option.bind_some, nested, Spot.readAll, List.foldlM_cons, back]
  rfl

/-- Inside of a script in a comment, the end of the page is read as text. -/
theorem readAll_nested_end : ∃ t, Spot.readAll ⟨.nested, 0, []⟩ (scriptCode ++ pageEnd) = some t := by
  rw [Spot.readAll_append, readAll_code, Option.bind_some, pageEnd_eq, readAll_nested_closing rfl]
  exact ⟨_, rfl⟩

/-- A story that leaves its script inside of a script in a comment swallows the script of the page. -/
theorem scripts_story_nested {json : List Char} (h : Spot.start.readAll json = some s) (nested : s.depth = .nested) :
    scripts (style.toList ++ (storyOpen.toList ++ (json ++ (storyClose.toList ++ (scriptOpen.toList ++
      (storyLookup.toList ++ (scriptCode ++ pageEnd))))))) = [] := by
  have opened : Spot.readAll ⟨.comment, 0, []⟩ ('\n' :: (scriptOpen.toList ++ storyLookup.toList)) =
      some ⟨.nested, 0, []⟩ := by
    decide
  obtain ⟨t, swallowed⟩ := readAll_nested_end
  have whole : Spot.start.readAll (json ++ (scriptClosing ++ '>' :: ('\n' :: (scriptOpen.toList ++ storyLookup.toList) ++
      (scriptCode ++ pageEnd)))) = some t := by
    rw [Spot.readAll_append, h, Option.bind_some, readAll_nested_closing nested, Spot.readAll_append, opened,
      Option.bind_some, swallowed]
  have unclosed := scripts_unclosed storyTag isInert_style_indent (by rfl) readTag_story whole
  rw [storyOpen_chars, storyClose_chars]
  simpa only [List.append_assoc, List.cons_append, List.nil_append] using unclosed

theorem scripts_text {content : List Char} (h : Spot.start.readAll content = some s) (out : s.depth ≠ .nested) :
    scripts (style.toList ++ (scriptOpen.toList ++ ('"' :: (content ++ ('"' :: (scriptCode ++ pageEnd)))))) =
      [codeScript ('"' :: (content.map visible ++ ['"']))] := by
  have code := scripts_code _ isInert_style_indent (readAll_quoted h) out
  have quote : visible '"' = '"' := by decide
  rw [scriptOpen_chars]
  simpa only [List.map_append, List.map_cons, List.map_nil, List.append_assoc, List.cons_append, List.nil_append,
    quote] using code

theorem scripts_text_nested {content : List Char} (h : Spot.start.readAll content = some s)
    (nested : s.depth = .nested) :
    scripts (style.toList ++ (scriptOpen.toList ++ ('"' :: (content ++ ('"' :: (scriptCode ++ pageEnd)))))) = [] := by
  obtain ⟨t, swallowed⟩ := readAll_nested_end
  have whole : Spot.start.readAll (scriptStart ++ ('"' :: (content ++ ['"'])) ++ (scriptCode ++ pageEnd)) = some t := by
    rw [Spot.readAll_append, readAll_quoted h, Option.bind_some, nested, swallowed]
  have unclosed := scripts_unclosed ['>'] isInert_style_indent rfl (fun cs => rfl) whole
  rw [scriptOpen_chars]
  simpa only [List.append_assoc, List.cons_append, List.nil_append] using unclosed

/-! ### Whole pages -/

/-- The text of a payload as it is read in the page. -/
def Payload.reading (p : Payload) : List Char := Text.unifyLines p.chars

/-- A payload that leaves its script inside of a script in a comment. -/
def Payload.isNested (p : Payload) : Bool := (Spot.start.readAll p.reading).any (·.depth = .nested)

theorem payload_cases (m : Mode) :
    payload m = .story (escapeClosing m.text.toList) ∨ payload m = .text (escapeScript m.payload.toList) := by
  unfold payload
  split
  · exact .inl rfl
  · exact .inl rfl
  · exact .inr rfl

theorem payload_free (m : Mode) : ¬ ['<', '/'] <:+: (payload m).chars := by
  rcases payload_cases m with shown | shown
  · rw [shown, Payload.chars, escapeClosing_eq]
    exact parted_free _
  · rw [shown, Payload.chars, escapeScript_eq]
    exact parted_free _

/-- No payload ends the script that holds it. -/
theorem payload_read (m : Mode) : ∃ s, Spot.start.readAll (payload m).reading = some s :=
  Spot.IsFree.readAll ⟨by decide, fun eq => absurd eq (by decide)⟩ (unifyLines_free (payload_free m))

theorem payload_text {m : Mode} {content : List Char} (h : payload m = .text content) :
    Text.unifyLines content = content := by
  refine Text.unifyLines_of_not_mem fun mem => ?_
  rcases payload_cases m with shown | shown
  · rw [shown] at h
    cases h
  · rw [shown] at h
    rw [← Payload.text.inj h] at mem
    exact (escapeScript_line mem).2 rfl

/-- The page behind the script of the story runtime. -/
def behindRuntime (p : Payload) : List Char :=
  style.toList ++ (p.element.toList ++ (scriptOpen.toList ++ (p.expression.toList ++ (scriptCode ++ pageEnd))))

theorem build_chars (url : String) (m : Mode) (title : Option String) :
    (build (urlTag url) m title).toList = beforeTitle.toList ++ (escapeMarkup (titleOr title).toList ++
      (afterTitle.toList ++ (scriptOpening ++ (runtimeTagOpen ++ (url.toList ++ ('"' :: '>' :: (scriptClosing ++
        '>' :: behindRuntime (payload m)))))))) := by
  rw [build_append]
  iterate 8 rw [String.toList_append]
  rw [scriptCode_append, urlTag_chars, String.toList_ofList]
  simp only [List.append_assoc, List.cons_append, List.nil_append, behindRuntime]

theorem unifyLines_closing : Text.unifyLines (scriptCode ++ pageEnd) = scriptCode ++ pageEnd :=
  Text.unifyLines_of_not_mem fun mem => (mem_closing mem).1 rfl

theorem unifyLines_story (json : List Char) :
    Text.unifyLines (behindRuntime (.story json)) = style.toList ++ (storyOpen.toList ++ (Text.unifyLines json ++
      (storyClose.toList ++ (scriptOpen.toList ++ (storyLookup.toList ++ (scriptCode ++ pageEnd)))))) := by
  have element : (Payload.story json).element.toList = storyOpen.toList ++ (json ++ storyClose.toList) := by
    rw [Payload.element, toList_enclosed rfl rfl, String.toList_ofList]
  have closed (rest : List Char) : (storyClose.toList ++ rest).head? ≠ some '\n' := by
    rw [storyClose_chars]
    exact fun eq => absurd (Option.some.inj eq) (by decide)
  rw [behindRuntime, element, Payload.expression, List.append_assoc, List.append_assoc,
    unifyLines_append_of_not_mem isPlain_style.1, unifyLines_append_of_not_mem (by decide),
    unifyLines_append_of_head (closed _), unifyLines_append_of_not_mem (by decide),
    unifyLines_append_of_not_mem (by decide), unifyLines_append_of_not_mem (by decide),
    unifyLines_closing]

theorem unifyLines_text {content : List Char} (h : Text.unifyLines content = content) :
    Text.unifyLines (behindRuntime (.text content)) = style.toList ++ (scriptOpen.toList ++ ('"' :: (content ++
      ('"' :: (scriptCode ++ pageEnd))))) := by
  have element : (Payload.text content).element.toList = [] := rfl
  have expression : (Payload.text content).expression.toList = '"' :: (content ++ ['"']) := by
    have quote : "\"".toList = ['"'] := rfl
    rw [Payload.expression, toList_enclosed quote quote, String.toList_ofList]
    rfl
  have opened : Text.unifyLines ('"' :: (content ++ ('"' :: (scriptCode ++ pageEnd)))) =
      '"' :: (content ++ ('"' :: (scriptCode ++ pageEnd))) := by
    rw [← List.singleton_append, unifyLines_append_of_not_mem (by decide), unifyLines_append_of_head (by simp), h,
      ← List.singleton_append (l := scriptCode ++ pageEnd), unifyLines_append_of_not_mem (by decide),
      unifyLines_closing]
  rw [behindRuntime, element, expression, List.nil_append, List.cons_append, List.append_assoc, List.singleton_append,
    unifyLines_append_of_not_mem isPlain_style.1, unifyLines_append_of_not_mem (by decide), opened]

theorem unifyLines_build (url : String) (m : Mode) (title : Option String) :
    Text.unifyLines (build (urlTag url) m title).toList = beforeTitle.toList ++
      (Text.unifyLines (escapeMarkup (titleOr title).toList) ++ (afterTitle.toList ++ (scriptOpening ++ (runtimeTagOpen ++
        (Text.unifyLines url.toList ++ ('"' :: '>' :: (scriptClosing ++ '>' ::
          Text.unifyLines (behindRuntime (payload m))))))))) := by
  have titled (rest : List Char) : (afterTitle.toList ++ rest).head? ≠ some '\n' := by
    have head : afterTitle.toList.head? = some '<' := by decide
    rw [List.head?_append, head]
    exact fun eq => absurd (Option.some.inj eq) (by decide)
  have tagged (rest : List Char) : Text.unifyLines ('"' :: '>' :: (scriptClosing ++ '>' :: rest)) =
      '"' :: '>' :: (scriptClosing ++ '>' :: Text.unifyLines rest) :=
    unifyLines_append_of_not_mem (by decide : '\r' ∉ '"' :: '>' :: (scriptClosing ++ ['>'])) rest
  rw [build_chars, unifyLines_append_of_not_mem isPlain_beforeTitle.1, unifyLines_append_of_head (titled _),
    unifyLines_append_of_not_mem isPlain_afterTitle.1, unifyLines_append_of_not_mem (by decide),
    unifyLines_append_of_not_mem (by decide), unifyLines_append_of_head (by simp), tagged]

/-- The scripts of a page: the story runtime, and those that the page is written with unless its payload swallows
them. -/
theorem scripts_build {url : String} (plain : '"' ∉ url.toList) (m : Mode) (title : Option String) :
    scripts (Text.unifyLines (build (urlTag url) m title).toList) =
      runtimeScript url :: if (payload m).isNested then [] else (payload m).scripts := by
  have free : '<' ∉ Text.unifyLines (escapeMarkup (titleOr title).toList) := by
    intro mem
    rcases mem_unifyLines mem with mem | line
    · exact tag_escapeMarkup _ mem
    · exact absurd line (by decide)
  have quoted : '"' ∉ Text.unifyLines url.toList := by
    intro mem
    rcases mem_unifyLines mem with mem | line
    · exact plain mem
    · exact absurd line (by decide)
  rw [unifyLines_build, scripts_front free quoted]
  congr 1
  obtain ⟨s, read⟩ := payload_read m
  cases shown : payload m with
  | story json =>
    rw [shown] at read
    have nested : (Payload.story json).isNested = decide (s.depth = .nested) := by
      simp [Payload.isNested, read]
    rw [unifyLines_story, nested]
    by_cases out : s.depth = .nested
    · rw [if_pos (decide_eq_true out)]
      exact scripts_story_nested read out
    · rw [if_neg (by simpa using out)]
      exact scripts_story read out
  | text content =>
    have same := payload_text shown
    rw [shown, Payload.reading, Payload.chars, same] at read
    have nested : (Payload.text content).isNested = decide (s.depth = .nested) := by
      simp [Payload.isNested, Payload.reading, Payload.chars, same, read]
    rw [unifyLines_text same, nested]
    by_cases out : s.depth = .nested
    · rw [if_pos (decide_eq_true out)]
      exact scripts_text_nested read out
    · rw [if_neg (by simpa using out)]
      exact scripts_text read out

/-- Only a payload that opens a comment can leave its script inside of one. -/
theorem Payload.isNested_false {p : Payload} (free : ¬ commentOpening <:+: p.reading) : p.isNested = false := by
  unfold isNested
  cases read : Spot.start.readAll p.reading with
  | none => rfl
  | some s =>
    have plain : s.depth = .plain := Spot.readAll_plain read rfl (fun _ starts => free starts.isInfix) free
    simp [plain]

/-- No payload ends the script that holds it, and the script ends where the page closes it unless the payload leaves
it inside of a script in a comment. Then the rest of the page is part of that script, and the page has none but the
story runtime. -/
theorem payload_contained {url : String} (plain : '"' ∉ url.toList) (m : Mode) (title : Option String) :
    (∃ s, Spot.start.readAll (payload m).reading = some s) ∧
    ((payload m).isNested = false →
      scripts (Text.unifyLines (build (urlTag url) m title).toList) = runtimeScript url :: (payload m).scripts) ∧
    ((payload m).isNested = true →
      scripts (Text.unifyLines (build (urlTag url) m title).toList) = [runtimeScript url]) ∧
    (¬ commentOpening <:+: (payload m).reading → (payload m).isNested = false) := by
  refine ⟨payload_read m, fun out => ?_, fun nested => ?_, Payload.isNested_false⟩
  · rw [scripts_build plain, out]
    rfl
  · rw [scripts_build plain, nested]
    rfl

/-- A message that quotes a comment with a script that is closed again. -/
def quoting : Mode := .compilerError "line 1: <!-- <script> -->\nexpected </SCRIPT >"

theorem quoting_contained : '"' ∉ Settings.runtimeUrl.toList ∧ (payload quoting).isNested = false ∧
    scripts (Text.unifyLines (build (urlTag Settings.runtimeUrl) quoting (some "a < b")).toList) =
      runtimeScript Settings.runtimeUrl :: (payload quoting).scripts := by
  have plain : '"' ∉ Settings.runtimeUrl.toList := by decide
  have out : (payload quoting).isNested = false := by decide
  exact ⟨plain, out, (payload_contained plain quoting (some "a < b")).2.1 out⟩

/-- A message that opens a comment and a script in it swallows the rest of its page. -/
theorem quoting_swallows : ∃ (url : String) (m : Mode), '"' ∉ url.toList ∧ m.IsDelivered ∧
    scripts (Text.unifyLines (build (urlTag url) m none).toList) ≠ runtimeScript url :: (payload m).scripts := by
  refine ⟨Settings.runtimeUrl, .compilerError "<!--<script>", by decide, .compilerError _, ?_⟩
  have nested : (payload (.compilerError "<!--<script>")).isNested = true := by decide
  rw [scripts_build (by decide), nested, if_pos rfl]
  simp [payload, Mode.compilerError, Payload.scripts]

end InkPreview.Page
