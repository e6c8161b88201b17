import InkPreview.Proofs.Gallery
/-!
Pages against their builder. A page is built anew only when the payload changes, and a page depends on more than
its payload: a story that starts as an error does has the payload of that error. For every other mode the gallery
hands out the page that is built for it. Main statement: `Gallery.render_builds`.
-/
namespace InkPreview

/-- The modes that are handed to the gallery. -/
inductive Mode.IsDelivered : Mode → Prop
  | empty : IsDelivered .empty
  | passthrough {text : String} (braced : (Text.trim text.toList).head? = some Settings.storyMark) :
      IsDelivered (.passthrough text)
  | compiled {story : String} (solid : Text.trim story.toList ≠ []) : IsDelivered (.compiled story)
  | compilerError (message : String) : IsDelivered (.compilerError message)
  | pending : IsDelivered .pending

/-- A story that starts as an error does, and the error of the rest. -/
inductive Mode.Twins : Mode → Mode → Prop
  | story (message : String) : Twins (.compiled (Settings.errorPrefix ++ message)) (.compilerError message)
  | error (message : String) : Twins (.compilerError message) (.compiled (Settings.errorPrefix ++ message))

theorem Mode.Twins.payload {m n : Mode} (h : m.Twins n) : m.payload = n.payload := by
  cases h with
  | story => rfl
  | error => rfl

namespace Text

theorem trimEnd_prefix (cs : List Char) : trimEnd cs <+: cs := by
  rw [← List.reverse_suffix, trimEnd, List.reverse_reverse]
  exact List.dropWhile_suffix isBlank

theorem trim_head {c : Char} {cs : List Char} (solid : isBlank c = false) {d : Char}
    (starts : (trim (c :: cs)).head? = some d) : d = c := by
  rw [trim, trimStart, List.dropWhile_cons_of_neg (by simp [solid])] at starts
  obtain ⟨rest, eq⟩ := List.head?_eq_some_iff.1 starts
  obtain ⟨more, whole⟩ := trimEnd_prefix (c :: cs)
  rw [eq] at whole
  exact (List.cons.inj whole).1

end Text

/-! ### Payloads -/

theorem Mode.IsDelivered.payload_ne {m : Mode} (h : m.IsDelivered) (full : m ≠ .empty) (settled : m.kind ≠ .pending) :
    m.payload ≠ "" := by
  cases h with
  | empty => exact absurd rfl full
  | pending => exact absurd rfl settled
  | passthrough braced =>
    rintro (rfl : _ = "")
    simp [Text.trim, Text.trimStart, Text.trimEnd] at braced
  | compiled solid =>
    rintro (rfl : _ = "")
    exact solid rfl
  | compilerError message =>
    intro blank
    have length : (Settings.errorPrefix ++ message).length = 0 := congrArg String.length blank
    rw [String.length_append] at length
    exact absurd length (by simp [Settings.errorPrefix])

theorem braced_ne_error {text message : String} (braced : (Text.trim text.toList).head? = some Settings.storyMark) :
    text ≠ Settings.errorPrefix ++ message := by
  rintro rfl
  rw [String.toList_append, show Settings.errorPrefix.toList = 'C' :: "OMPILER_ERROR:".toList by decide] at braced
  exact absurd (Text.trim_head (by decide) braced) (by decide)

/-- Modes with one payload have one page, or they are twins. -/
theorem Mode.IsDelivered.build_eq {m n : Mode} (h : m.IsDelivered) (k : n.IsDelivered) (settled : m.kind ≠ .pending)
    (settled' : n.kind ≠ .pending) (payload : m.payload = n.payload) (apart : ¬ m.Twins n) (tag : String)
    (title : Option String) : Page.build tag m title = Page.build tag n title := by
  by_cases blank : m = .empty
  · subst blank
    by_cases blank' : n = .empty
    · rw [blank']
    · exact absurd payload.symm (k.payload_ne blank' settled')
  · by_cases blank' : n = .empty
    · subst blank'
      exact absurd payload (h.payload_ne blank settled)
    · cases h with
      | empty => exact absurd rfl blank
      | pending => exact absurd rfl settled
      | @passthrough text braced =>
        cases k with
        | empty => exact absurd rfl blank'
        | pending => exact absurd rfl settled'
        | passthrough | compiled =>
          obtain rfl : text = _ := payload
          rfl
        | compilerError message => exact absurd payload (braced_ne_error braced)
      | @compiled story solid =>
        cases k with
        | empty => exact absurd rfl blank'
        | pending => exact absurd rfl settled'
        | passthrough | compiled =>
          obtain rfl : story = _ := payload
          rfl
        | compilerError message =>
          obtain rfl : story = _ := payload
          exact absurd (.story message) apart
      | compilerError message =>
        cases k with
        | empty => exact absurd rfl blank'
        | pending => exact absurd rfl settled'
        | passthrough braced => exact absurd payload.symm (braced_ne_error braced)
        | compiled =>
          cases payload
          exact absurd (.error message) apart
        | compilerError other =>
          obtain rfl : message = other := (String.append_right_inj _).1 payload
          rfl

/-! ### What is recorded -/

/-- A preview with a page of its recorded mode. -/
structure Preview.Shows (s : Preview) (tag : String) (m : Mode) (a : Artifact) : Prop where
  mode : s.mode = some m
  artifact : s.artifact = some a
  content : s.content = some m.payload
  html : a.html = Page.build tag m none
  delivered : m.IsDelivered
  settled : m.kind ≠ .pending

namespace Gallery
variable {g : Gallery} {doc : String} {mode : Mode}

/-- Every preview shows its recorded mode. -/
def IsFaithful (g : Gallery) : Prop :=
  ∀ doc s, g.previews.find? doc = some s → ∃ m a, s.Shows g.tag m a

theorem isFaithful_new (tag : String) : (new tag).IsFaithful := by
  intro doc s found
  simp [new, Previews.find?] at found

/-- The mode that was last recorded for a document. -/
def mode? (g : Gallery) (doc : String) : Option Mode := (g.previews.find? doc).bind (·.mode)

theorem IsFaithful.artifact? (h : g.IsFaithful) {a : Artifact} (found : g.previews.artifact? doc = some a) :
    ∃ s m, g.previews.find? doc = some s ∧ s.Shows g.tag m a := by
  obtain ⟨s, there, shown⟩ := Option.bind_eq_some_iff.1 found
  obtain ⟨m, a', shows⟩ := h doc s there
  obtain rfl := Option.some.inj (shows.artifact.symm.trans shown)
  exact ⟨s, m, there, shows⟩

/-- A page that is handed out again is one of the payload that was recorded. -/
theorem IsFaithful.reused (h : g.IsFaithful) {content : String} {a : Artifact}
    (kept : (if g.previews.isUnchanged doc content then g.previews.artifact? doc else none) = some a) :
    ∃ m, g.mode? doc = some m ∧ m.payload = content ∧ a.html = Page.build g.tag m none ∧ m.IsDelivered ∧
      m.kind ≠ .pending := by
  obtain ⟨unchanged, found⟩ := Option.ite_none_right_eq_some.1 kept
  obtain ⟨s, m, there, shows⟩ := h.artifact? found
  simp only [Previews.isUnchanged, there, Bool.and_eq_true, beq_iff_eq, shows.content, Option.some.injEq] at unchanged
  exact ⟨m, by simp [mode?, there, shows.mode], unchanged.2, shows.html, shows.delivered, shows.settled⟩

theorem IsFaithful.discard (h : g.IsFaithful) (doc : String) : (g.discard doc).IsFaithful := by
  intro name s found
  by_cases here : doc = name
  · subst here
    rw [Gallery.discard, Previews.find?_remove] at found
    cases found
  · rw [Gallery.discard, Previews.find?_remove_other _ here] at found
    exact h name s found

theorem IsFaithful.render (h : g.IsFaithful) (doc : String) (delivered : mode.IsDelivered) :
    (g.render doc mode).2.2.IsFaithful := by
  intro name s found
  rw [tag_render]
  by_cases here : doc = name
  · subst here
    unfold Gallery.render at found
    split at found
    · split at found
      · exact h doc s found
      · exact h doc s found
    · rename_i settled
      dsimp only at found
      split at found
      · exact h doc s found
      · obtain ⟨old, there⟩ := Previews.find?_ensure_self g.previews doc
        have named : old.doc = doc := by simpa using List.find?_some there
        simp only [Previews.find?_record, there, Option.map_some, named, beq_self_eq_true, if_true,
          Option.some.injEq] at found
        subst found
        exact ⟨mode, _, rfl, rfl, rfl, rfl, delivered, settled⟩
  · rw [find?_render_other g here] at found
    exact h name s found

/-- What a gallery is asked for. -/
inductive Call
  | render (doc : String) (mode : Mode)
  | discard (doc : String)

/-- The modes of the call are ones that are handed to the gallery. -/
def Call.IsDelivered : Call → Prop
  | render _ mode => mode.IsDelivered
  | discard _ => True

def call (g : Gallery) : Call → Gallery
  | .render doc mode => (g.render doc mode).2.2
  | .discard doc => g.discard doc

def calls (g : Gallery) (cs : List Call) : Gallery := cs.foldl call g

theorem tag_calls (g : Gallery) (cs : List Call) : (g.calls cs).tag = g.tag := by
  induction cs generalizing g with
  | nil => rfl
  | cons c rest ih =>
    refine (ih (g.call c)).trans ?_
    cases c with
    | render doc mode => exact tag_render g doc mode
    | discard doc => rfl

theorem IsFaithful.call (h : g.IsFaithful) {c : Call} (delivered : c.IsDelivered) : (g.call c).IsFaithful := by
  cases c with
  | render doc mode => exact h.render doc delivered
  | discard doc => exact h.discard doc

theorem IsFaithful.calls (h : g.IsFaithful) {cs : List Call} (delivered : ∀ c ∈ cs, c.IsDelivered) :
    (g.calls cs).IsFaithful := by
  induction cs generalizing g with
  | nil => exact h
  | cons c rest ih =>
    exact ih (h.call (delivered c List.mem_cons_self)) fun d mem => delivered d (List.mem_cons_of_mem c mem)

theorem IsFaithful.render_html (h : g.IsFaithful) (doc : String) (delivered : mode.IsDelivered)
    (settled : mode.kind ≠ .pending) :
    ((∀ last, g.mode? doc = some last → ¬ last.Twins mode) → (g.render doc mode).1.html = g.build mode none) ∧
    ∀ last, g.mode? doc = some last → last.Twins mode → (g.render doc mode).1.html = g.build last none := by
  unfold Gallery.render
  rw [if_neg settled]
  dsimp only
  split
  · rename_i a kept
    obtain ⟨m, recorded, payload, html, known, calm⟩ := h.reused kept
    refine ⟨fun apart => ?_, fun last shown _ => ?_⟩
    · exact html.trans (known.build_eq delivered calm settled payload (apart m recorded) g.tag none)
    · obtain rfl := Option.some.inj (recorded.symm.trans shown)
      exact html
  · rename_i renewed
    refine ⟨fun _ => rfl, fun last shown twins => ?_⟩
    -- a twin of the mode would have been handed out again
    obtain ⟨s, there, recorded⟩ := Option.bind_eq_some_iff.1 shown
    obtain ⟨m, a, shows⟩ := h doc s there
    obtain rfl := Option.some.inj (shows.mode.symm.trans recorded)
    simp [Previews.isUnchanged, Previews.artifact?, there, shows.artifact, shows.content, twins.payload] at renewed

/-- After any calls, the gallery hands out the page that is built for the mode; or, if a twin of the mode is what
was last recorded for the document, the page of that twin. -/
theorem render_builds (tag : String) {cs : List Call} (known : ∀ c ∈ cs, c.IsDelivered) (doc : String)
    (delivered : mode.IsDelivered) (settled : mode.kind ≠ .pending) :
    ((∀ last, ((new tag).calls cs).mode? doc = some last → ¬ last.Twins mode) →
      (((new tag).calls cs).render doc mode).1.html = (new tag).build mode none) ∧
    ∀ last, ((new tag).calls cs).mode? doc = some last → last.Twins mode →
      (((new tag).calls cs).render doc mode).1.html = (new tag).build last none := by
  have html := ((isFaithful_new tag).calls known).render_html doc delivered settled
  simpa only [build, tag_calls] using html

/-- Only the page of the story has to look its text up. -/
theorem build_ne : (new "").build (.compiled "COMPILER_ERROR:x") none ≠ (new "").build (.compilerError "x") none := by
  intro same
  have length := congrArg String.length same
  have lookup : (Page.payload (.compiled "COMPILER_ERROR:x")).expression.length = 49 := by decide
  have quoted : (Page.payload (.compilerError "x")).expression.length = 18 := by decide
  have bare : (Page.payload (.compilerError "x")).element.length = 0 := rfl
  simp only [build, Page.build, String.length_append] at length
  omega

/-- A compiler's output that reads like an error message. -/
def strange : List Call := [.render "a" (.compiled "COMPILER_ERROR:x")]

theorem isDelivered_strange : ∀ c ∈ strange, c.IsDelivered := by
  intro c mem
  rw [List.mem_singleton.1 mem]
  exact .compiled (by decide)

/-- The error that follows is not shown: the story stays. -/
theorem render_strange : (∀ c ∈ strange, c.IsDelivered) ∧ (Mode.compilerError "x").IsDelivered ∧
    (Mode.compilerError "x").kind ≠ .pending ∧
    (((new "").calls strange).render "a" (.compilerError "x")).1.html =
      (new "").build (.compiled "COMPILER_ERROR:x") none := by
  have delivered : (Mode.compilerError "x").IsDelivered := .compilerError "x"
  refine ⟨isDelivered_strange, delivered, nofun, ?_⟩
  exact (render_builds "" isDelivered_strange "a" delivered nofun).2 _ rfl (.story "x")

theorem render_not_built : ∃ (cs : List Call) (doc : String) (mode : Mode), (∀ c ∈ cs, c.IsDelivered) ∧
    mode.IsDelivered ∧ mode.kind ≠ .pending ∧
    (((new "").calls cs).render doc mode).1.html ≠ (new "").build mode none := by
  refine ⟨strange, "a", .compilerError "x", isDelivered_strange, .compilerError "x", nofun, fun same => ?_⟩
  have page : (((new "").calls strange).render "a" (.compilerError "x")).1 =
      ⟨0, "a", .compiled "COMPILER_ERROR:x", (new "").build (.compiled "COMPILER_ERROR:x") none⟩ := rfl
  rw [page] at same
  exact build_ne same

end Gallery
end InkPreview
