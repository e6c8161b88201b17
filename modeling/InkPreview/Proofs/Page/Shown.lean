import InkPreview.Compile.Child
import InkPreview.Proofs.Page.Scripts
/-!
What a page comes to show, read back from the page itself. The classifier, the compiler's runner and the script of the
page each look at how a text starts, and they do not cut the same blanks off its ends. Main statements: `shown_build`,
`settled_shown`.
-/
namespace InkPreview

/-- The mode that a text settles on, given what compiling it comes to. -/
def Mode.settled (text : String) (o : Outcome) : Mode :=
  match classify text, o with
  | some m, _ => m
  | none, .success story => .compiled story
  | none, .failed _ message => .compilerError message

namespace Mode

theorem settled_blank {text : String} (blank : Text.trim text.toList = []) (o : Outcome) : settled text o = .empty := by
  simp [settled, classify, blank]

theorem settled_braced {text : String} (braced : (Text.trim text.toList).head? = some Settings.storyMark)
    (o : Outcome) :
    settled text o = .passthrough text := by
  obtain ⟨rest, starts⟩ := List.head?_eq_some_iff.1 braced
  simp [settled, classify, starts]

theorem settled_compile {text : String} (compiles : needsCompile text) (o : Outcome) :
    settled text o = match o with
      | .success story => .compiled story
      | .failed _ message => .compilerError message := by
  have unclear : classify text = none := by simpa [needsCompile] using compiles
  unfold settled
  rw [unclear]
  cases o with
  | success story => rfl
  | failed k message => rfl

end Mode

namespace Page

variable {cs xs : List Char} {c : Char}

/-! ### Characters that are shown as missing -/

theorem visible_eq {d : Char} (other : d ≠ '\ufffd') (present : d ≠ '\x00') : visible c = d ↔ c = d := by
  unfold visible
  split
  · rename_i null
    subst null
    exact ⟨fun eq => absurd eq.symm other, fun eq => absurd eq.symm present⟩
  · rfl

theorem parted_visible (cs : List Char) : parted (cs.map visible) = (parted cs).map visible := by
  fun_induction parted cs with
  | case1 => rfl
  | case2 cs ih =>
    show '<' :: '\\' :: '/' :: parted (cs.map visible) = _
    rw [ih]
    rfl
  | case3 c cs plain ih =>
    rw [List.map_cons, parted, ih]
    · rfl
    · rintro ds tag slash
      cases cs with
      | nil => cases slash
      | cons d cs =>
        have tag := (visible_eq (by decide) (by decide)).1 tag
        have slash := (visible_eq (by decide) (by decide)).1 (List.cons.inj slash).1
        exact plain cs tag (by rw [slash])

theorem escapeChar_visible (c : Char) : escapeChar (visible c) = (escapeChar c).map visible := by
  by_cases null : c = '\x00'
  · subst null
    rfl
  · have same : visible c = c := if_neg null
    rw [same]
    unfold escapeChar
    split
    case h_5 => rw [List.map_singleton, same]
    all_goals rfl

theorem escapeScript_visible (cs : List Char) : escapeScript (cs.map visible) = (escapeScript cs).map visible := by
  rw [escapeScript_eq, escapeScript_eq, ← parted_visible, List.map_flatMap, List.flatMap_map]
  simp only [escapeChar_visible]

/-! ### How a content starts -/

/-- To cut off the end of a text leaves its start as it is. -/
theorem trimmed_head? (p : Char → Bool) (cs : List Char) :
    ((cs.dropWhile p).reverse.dropWhile p).reverse.head? = (cs.dropWhile p).head? := by
  cases rest : cs.dropWhile p with
  | nil => rfl
  | cons c ds =>
    have solid : p c = false := by
      have first := List.head?_dropWhile_not p cs
      rw [rest] at first
      simpa using first
    rw [List.reverse_cons, List.dropWhile_append]
    split
    · simp [solid]
    · simp

/-- Line ends are blank, however they are written. -/
theorem unifyLines_dropWhile (xs : List Char) :
    ((Text.unifyLines xs).dropWhile isScriptBlank).head? = (xs.dropWhile isScriptBlank).head? := by
  have line : isScriptBlank '\n' = true := by decide
  have ret : isScriptBlank '\r' = true := by decide
  fun_induction Text.unifyLines xs with
  | case1 => rfl
  | case2 xs ih => simpa [List.dropWhile_cons, line, ret] using ih
  | case3 xs _ ih => simpa [List.dropWhile_cons, line, ret] using ih
  | case4 c xs _ _ ih =>
    rw [List.dropWhile_cons, List.dropWhile_cons]
    split
    · exact ih
    · rfl

theorem parted_dropWhile (xs : List Char) :
    ((parted xs).dropWhile isScriptBlank).head? = (xs.dropWhile isScriptBlank).head? := by
  fun_induction parted xs with
  | case1 => rfl
  | case2 xs ih => rfl
  | case3 c xs _ ih =>
    rw [List.dropWhile_cons, List.dropWhile_cons]
    split
    · exact ih
    · rfl

theorem visible_dropWhile (xs : List Char) :
    ((xs.map visible).dropWhile isScriptBlank).head? = (xs.dropWhile isScriptBlank).head?.map visible := by
  have same (c : Char) : isScriptBlank (visible c) = isScriptBlank c := by
    by_cases null : c = '\x00'
    · subst null
      decide
    · rw [show visible c = c from if_neg null]
  induction xs with
  | nil => rfl
  | cons c xs ih =>
    rw [List.map_cons, List.dropWhile_cons, List.dropWhile_cons, same]
    split
    · exact ih
    · rfl

/-! ### The script of a page -/

theorem behind_append (xs cs : List Char) : behind xs (xs ++ cs) = some cs := by
  simp [behind]

theorem runScript_read {story : Option (List Char)} {expression text : List Char}
    (read : contentExpression story (expression ++ scriptCode) = some (text, scriptCode)) :
    runScript story (scriptStart ++ (expression ++ scriptCode)) = some (dispatch text) := by
  rw [runScript, behind_append, Option.bind_eq_bind, Option.bind_some, read, Option.bind_eq_bind, Option.bind_some]
  exact if_pos rfl

theorem contentExpression_story (text cs : List Char) :
    contentExpression (some text) (storyLookup.toList ++ cs) = some (text, cs) := by
  have head : storyLookup.toList.head? = some 'd' := by decide
  rw [contentExpression, behind_append]
  · rfl
  · intro rest eq
    have other := congrArg List.head? eq
    rw [List.head?_append, head] at other
    exact absurd (Option.some.inj other) (by decide)

theorem contentExpression_text (story : Option (List Char)) (text cs : List Char) :
    contentExpression story ('"' :: ((escapeScript text).map visible ++ ['"']) ++ cs) =
      some ((text.filter (· ≠ '\r')).map visible, cs) := by
  have kept : (text.map visible).filter (· ≠ '\r') = (text.filter (· ≠ '\r')).map visible := by
    rw [List.filter_map]
    congr 1
    refine List.filter_congr fun c _ => ?_
    simp [visible_eq (c := c) (d := '\r') (by decide) (by decide)]
  rw [List.cons_append, List.append_assoc, contentExpression, ← escapeScript_visible, List.singleton_append,
    stringLiteral_escapeScript, kept]

/-! ### Pages -/

/-- What the script of a page reads. -/
def content (m : Mode) : List Char :=
  match m.kind with
  | .compiled | .passthrough => (Text.unifyLines (escapeClosing m.text.toList)).map visible
  | _ => (m.payload.toList.filter (· ≠ '\r')).map visible

theorem payload_content (m : Mode) :
    (payload m = .story (escapeClosing m.text.toList) ∧
      content m = (Text.unifyLines (escapeClosing m.text.toList)).map visible) ∨
    (payload m = .text (escapeScript m.payload.toList) ∧
      content m = (m.payload.toList.filter (· ≠ '\r')).map visible) := by
  obtain ⟨kind, text⟩ := m
  cases kind with
  | compiled | passthrough => exact .inl ⟨rfl, rfl⟩
  | empty | compilerError | pending => exact .inr ⟨rfl, rfl⟩

theorem contains_runtime (url : String) : (runtimeScript url).attributes.contains storyId = false := by
  have names : "src".toList ≠ storyId.name := by decide
  have other : storyId ≠ (⟨"src".toList, Text.unifyLines url.toList⟩ : Attribute) := fun eq =>
    names (congrArg Attribute.name eq).symm
  simpa [runtimeScript] using other

theorem shown_scripts {page : String} {es : List Script} {story : Option Script} {code : Script}
    (read : scripts (Text.unifyLines page.toList) = es)
    (found : es.find? (·.attributes.contains storyId) = story) (last : es.getLast? = some code) :
    shown page = runScript (story.map (·.text)) code.text := by
  subst read found
  unfold shown
  dsimp only
  rw [last]
  rfl

/-- A page shows what its content makes of it, unless its payload swallows the script that would. -/
theorem shown_build {url : String} (plain : '"' ∉ url.toList) (m : Mode) (title : Option String) :
    shown (build (urlTag url) m title) = if (payload m).isNested then none else some (dispatch (content m)) := by
  have read := scripts_build plain m title
  by_cases nested : (payload m).isNested = true
  · rw [if_pos nested] at read ⊢
    have missing : [runtimeScript url].find? (·.attributes.contains storyId) = none := by
      rw [List.find?_cons, contains_runtime]
      rfl
    exact shown_scripts read missing rfl
  · rw [if_neg nested] at read ⊢
    rcases payload_content m with ⟨shown, reads⟩ | ⟨shown, reads⟩
    · rw [shown] at read
      have found : (runtimeScript url :: (Payload.story (escapeClosing m.text.toList)).scripts).find?
          (·.attributes.contains storyId) = some (storyScript (escapeClosing m.text.toList)) := by
        rw [List.find?_cons, contains_runtime]
        rfl
      rw [reads, shown_scripts read found rfl]
      exact runScript_read (contentExpression_story _ _)
    · rw [shown] at read
      have missing : (runtimeScript url :: (Payload.text (escapeScript m.payload.toList)).scripts).find?
          (·.attributes.contains storyId) = none := by
        rw [List.find?_cons, contains_runtime]
        rfl
      rw [reads, shown_scripts read missing rfl]
      exact runScript_read (contentExpression_text _ _ _)

/-! ### What is made of a content -/

theorem dispatch_eq (cs : List Char) : dispatch cs =
    match (cs.dropWhile isScriptBlank).head? with
    | none => .placeholder
    | some c =>
      if c = Settings.storyMark then .story cs
      else if Settings.errorPrefix.toList.isPrefixOf cs then .error (cs.drop Settings.errorPrefix.length)
      else .notice := by
  rw [← trimmed_head? isScriptBlank cs]
  show dispatch cs = match (scriptTrim cs).head? with | none => _ | some c => _
  rw [dispatch]
  cases scriptTrim cs with
  | nil => rfl
  | cons c rest => rfl

theorem dispatch_error (cs : List Char) : dispatch (Settings.errorPrefix.toList ++ cs) = .error cs := by
  have head : Settings.errorPrefix.toList.head? = some 'C' := by decide
  have blank : isScriptBlank 'C' = false := by decide
  obtain ⟨rest, eq⟩ := List.head?_eq_some_iff.1 head
  have kept : (Settings.errorPrefix.toList ++ cs).dropWhile isScriptBlank = 'C' :: (rest ++ cs) := by
    rw [eq, List.cons_append, List.dropWhile_cons_of_neg (by simp [blank])]
  have starts : Settings.errorPrefix.toList.isPrefixOf (Settings.errorPrefix.toList ++ cs) = true :=
    List.isPrefixOf_iff_prefix.2 (List.prefix_append _ _)
  rw [dispatch_eq, kept, List.head?_cons]
  dsimp only
  rw [if_neg (by decide), if_pos starts, ← String.length_toList, List.drop_left]

/-- A content is run as a story if it starts as one behind the blanks that the script cuts off. -/
theorem dispatch_story (cs : List Char) :
    dispatch cs = .story cs ↔ (cs.dropWhile isScriptBlank).head? = some Settings.storyMark := by
  rw [dispatch_eq]
  cases (cs.dropWhile isScriptBlank).head? with
  | none => simp
  | some c =>
    by_cases starts : c = Settings.storyMark
    · simp [starts]
    · dsimp only
      rw [if_neg starts]
      refine ⟨fun eq => ?_, fun eq => absurd (Option.some.inj eq) starts⟩
      split at eq
      · cases eq
      · cases eq

/-- The content of a story starts as the story does. -/
theorem content_dropWhile {m : Mode} (story : content m = (Text.unifyLines (escapeClosing m.text.toList)).map visible) :
    ((content m).dropWhile isScriptBlank).head? = (m.text.toList.dropWhile isScriptBlank).head?.map visible := by
  rw [story, visible_dropWhile, unifyLines_dropWhile, escapeClosing_eq, parted_dropWhile]

theorem content_starts {m : Mode} (story : content m = (Text.unifyLines (escapeClosing m.text.toList)).map visible) :
    dispatch (content m) = .story (content m) ↔
      (m.text.toList.dropWhile isScriptBlank).head? = some Settings.storyMark := by
  rw [dispatch_story, content_dropWhile story, Option.map_eq_some_iff]
  constructor
  · rintro ⟨c, starts, seen⟩
    rw [starts, (visible_eq (by decide) (by decide)).1 seen]
  · exact fun starts => ⟨_, starts, by decide⟩

/-- Blanks that only the classifier cuts off hide the start of a story from the script. -/
theorem braced_dropWhile {cs : List Char} (braced : (Text.trim cs).head? = some Settings.storyMark) :
    (cs.dropWhile isScriptBlank).head? = some Settings.storyMark ↔ (cs.takeWhile Text.isBlank).all isScriptBlank := by
  replace braced : (cs.dropWhile Text.isBlank).head? = some Settings.storyMark :=
    (trimmed_head? Text.isBlank cs).symm.trans braced
  induction cs with
  | nil => cases braced
  | cons c cs ih =>
    by_cases blank : Text.isBlank c = true
    · rw [List.dropWhile_cons_of_pos blank] at braced
      rw [List.takeWhile_cons_of_pos blank, List.all_cons]
      by_cases cut : isScriptBlank c = true
      · rw [List.dropWhile_cons_of_pos cut, cut, Bool.true_and]
        exact ih braced
      · rw [List.dropWhile_cons_of_neg cut, List.head?_cons, Option.some.injEq]
        have solid : c ≠ Settings.storyMark := by
          rintro rfl
          exact absurd blank (by decide)
        simp [solid, cut]
    · rw [List.dropWhile_cons_of_neg blank] at braced
      obtain rfl : c = Settings.storyMark := Option.some.inj braced
      rw [List.takeWhile_cons_of_neg blank, List.dropWhile_cons_of_neg (by decide)]
      simp

theorem content_error (message : String) : content (.compilerError message) =
    Settings.errorPrefix.toList ++ (message.toList.filter (· ≠ '\r')).map visible := by
  have kept : Settings.errorPrefix.toList.filter (· ≠ '\r') = Settings.errorPrefix.toList := by decide
  have seen : Settings.errorPrefix.toList.map visible = Settings.errorPrefix.toList := by decide
  show ((Settings.errorPrefix ++ message).toList.filter (· ≠ '\r')).map visible = _
  rw [String.toList_append, List.filter_append, List.map_append, kept, seen]

/-- What the page of a settled mode shows, if its payload leaves the script of the page alone. Blank text shows the
placeholder, a failed compile its message without carriage returns. Text that starts like a story is run as one if
the script cuts off all that stands in front of it, and an output, which is only known not to be blank, is run if it
starts like one. -/
theorem settled_shown {url : String} (plain : '"' ∉ url.toList) (text : String) (o : Outcome) (title : Option String)
    (contained : (payload (.settled text o)).isNested = false) :
    let m := Mode.settled text o
    let page := build (urlTag url) m title
    (Text.trim text.toList = [] → shown page = some .placeholder) ∧
    ((Text.trim text.toList).head? = some Settings.storyMark →
      (text.toList.takeWhile Text.isBlank).all isScriptBlank = true → shown page = some (.story (content m))) ∧
    (needsCompile text → ∀ k message, o = .failed k message →
      shown page = some (.error ((message.toList.filter (· ≠ '\r')).map visible))) ∧
    (needsCompile text → ∀ story, o = .success story → (shown page = some (.story (content m)) ↔
      (story.toList.dropWhile isScriptBlank).head? = some Settings.storyMark)) := by
  intro m page
  have shows : shown page = some (dispatch (content m)) := by
    rw [shown_build plain m title, contained, if_neg (by simp)]
  rw [shows]
  refine ⟨fun blank => ?_, fun braced common => ?_, fun compiles k message failed => ?_,
    fun compiles story success => ?_⟩
  · rw [show m = .empty from Mode.settled_blank blank o]
    rfl
  · have same : m = .passthrough text := Mode.settled_braced braced o
    rw [Option.some.injEq, content_starts (by rw [same]; rfl), same]
    exact (braced_dropWhile braced).2 common
  · subst failed
    rw [show m = .compilerError message from Mode.settled_compile compiles _, content_error, dispatch_error]
  · subst success
    have same : m = .compiled story := Mode.settled_compile compiles _
    rw [Option.some.injEq, content_starts (by rw [same]; rfl), same]
    rfl

/-- A message with a carriage return, on a page with a title of its own. -/
theorem message_shown : '"' ∉ Settings.runtimeUrl.toList ∧
    (payload (.settled "Hi" (.failed .processError "a\r\n</b>"))).isNested = false ∧
    shown (build (urlTag Settings.runtimeUrl) (.settled "Hi" (.failed .processError "a\r\n</b>")) (some "<t>")) =
      some (.error "a\n</b>".toList) := by
  have plain : '"' ∉ Settings.runtimeUrl.toList := by decide
  have contained : (payload (.settled "Hi" (.failed .processError "a\r\n</b>"))).isNested = false := by decide
  have settled := settled_shown plain "Hi" (.failed .processError "a\r\n</b>") (some "<t>") contained
  exact ⟨plain, contained, settled.2.2.1 (by decide) _ _ rfl⟩

/-- A compiler that ends well and writes no story. -/
def chatty : Child := ⟨none, none, 0, 0, [], .bytes [104, 101, 108, 108, 111], false, none⟩

/-- Its output is accepted, and its page claims that it is still to be compiled. -/
theorem chatty_noticed : chatty.outcome.1 = .success "hello" ∧
    shown (build (urlTag Settings.runtimeUrl) (.settled "Hi" chatty.outcome.1) none) = some .notice := by
  have accepted : chatty.outcome.1 = .success "hello" := by decide +kernel
  have settled : Mode.settled "Hi" (.success "hello") = .compiled "hello" := by decide
  refine ⟨accepted, ?_⟩
  rw [accepted, settled, shown_build (by decide), if_neg (by decide)]
  rfl

end Page
end InkPreview
