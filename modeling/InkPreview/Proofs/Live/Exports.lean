import InkPreview.Proofs.Live.Compilation
import InkPreview.Proofs.Live.Convergence
import InkPreview.Proofs.Live.Interruption
import Mathlib.Data.List.Induction
import Mathlib.Data.List.Infix
/-!
Exports and previews. Both make something of what a compile of the text comes to: where it comes to the same each
time, a document shows what an export hands over, and the diagnostics with which an export fails. Main statement:
`previews_match_exports`.
-/
namespace InkPreview.Live
namespace World

/-- What an export of a kind that is compiled makes of what the compile has come to. -/
def exportSignal (w : World) (kind : ExportKind) (title : Option String) : Except Fault Outcome → Signal
  | .ok (.success story) => .value (.exported ⟨kind, w.exportContent kind title story⟩)
  | .ok (.failed k m) => .fault (.exportFailed k m)
  | .error f => .fault f

/-- In the course of the inputs a compile of the text has come to this. -/
def Yields (w : World) (inputs : List Input) (text : String) (o : Except Fault Outcome) : Prop :=
  w.Completes inputs (.compile text) (answerSignal o) ∧ ∃ before, before <+: inputs ∧ (w.run before).Comes text o

/-- After the inputs a document shows this mode for an edit to the text. -/
def Previews (w : World) (inputs : List Input) (text : String) (m : Mode) : Prop :=
  ∃ name u e, (w.run inputs).lastUpdate? (.name name) = some u ∧ .edited e ∈ w.marksAlong inputs ∧
    e.slot = u.slot ∧ e.generation = u.generation ∧ e.text = text ∧ u.mode = m ∧ m ≠ .pending

/-- The search for a compiler answers, and the compiler is not kept from starting on the text by anything but a
refusal of the system. -/
structure IsTyped (w : World) (text : String) : Prop where
  located : ∀ f, w.finder.answer ≠ .error f
  written : ∀ name m, (w.setup.child text).writeFault ≠ some (.crashed name m)
  started : ∀ name m, (w.setup.child text).startFault ≠ some (.crashed name m)

section
variable {ms : List Mark} {b : Bench} {start w v : World} {inputs pre mid more : List Input} {t : TaskId}
  {base fs : List Frame}
  {s : Signal} {text : String} {op : Op} {o : Except Fault Outcome} {doc : String}
  {kind : ExportKind} {title : Option String}

theorem Completes.mono (h : w.Completes inputs op s) (more : List Input) : w.Completes (inputs ++ more) op s := by
  obtain ⟨before, mid, after, t, fs, split, begun, returns⟩ := h
  exact ⟨before, mid, after ++ more, t, fs, by simp [split], begun, returns⟩

theorem Yields.mono (h : w.Yields inputs text o) (more : List Input) : w.Yields (inputs ++ more) text o := by
  obtain ⟨completes, before, early, comes⟩ := h
  exact ⟨completes.mono more, before, early.trans (List.prefix_append _ _), comes⟩

theorem Fixed.exportSignal (h : w.Fixed v) (kind : ExportKind) (title : Option String) (o : Except Fault Outcome) :
    v.exportSignal kind title o = w.exportSignal kind title o := by
  rcases o with f | story | ⟨k, m⟩
  · rfl
  · cases kind <;> simp [World.exportSignal, exportContent, Gallery.build, h.tag]
  · rfl

/-! ### Back from a compile -/

/-- A task that is back from a compile has a result of it, or was cancelled. -/
theorem Phase.result (h : w.Phase inputs t base text) (now : (w.run inputs).current = some (t, base, s))
    (ends : s.IsEnd) :
    s = .cancelled ∨ ∃ o, s = answerSignal o ∧ w.Yields inputs text o := by
  cases h with
  | asked now' =>
    cases now.symm.trans now'
    exact ends.elim
  | @away before mid split begun above =>
    have longer := above mid.length (Nat.le_refl _)
    rw [List.take_length, ← split, stackOf_running now] at longer
    exact absurd longer (Nat.lt_irrefl _)
  | @back before mid after s' split begun returns now' result =>
    cases now.symm.trans now'
    rcases result with rfl | ⟨o, rfl, comes⟩
    · exact .inl rfl
    · exact .inr ⟨o, rfl, ⟨before, mid, after, t, base, split, begun, returns⟩, before, ⟨_, split.symm⟩, comes⟩

theorem Phase.above (h : w.Phase inputs t base text) : base.length ≤ ((w.run inputs).stackOf t).length := by
  cases h with
  | asked now | back _ _ _ now => exact Nat.le_of_eq (congrArg List.length (stackOf_running now)).symm
  | @away before mid split _ above =>
    have longer := above mid.length (Nat.le_refl _)
    rw [List.take_length, ← split] at longer
    exact Nat.le_of_lt longer

/-- Until a task that was told to compile is back, the compile takes its course. -/
theorem Phase.along (h : w.Phase pre t base text) (new : w.IsNew) (allowed : ∀ i ∈ pre ++ mid, i.IsPublic)
    (returns : (w.run pre).ComesBack t base mid s) : w.Phase (pre ++ mid) t base text := by
  induction mid generalizing pre with
  | nil => simpa using h
  | cons i rest ih =>
    have split : pre ++ i :: rest = pre ++ [i] ++ rest := by simp
    have flight := run_flight new fun j mem => allowed j (List.mem_append_left _ mem)
    have next := h.apply flight (allowed i (by simp)) fun s' _ _ now => by
      have longer := returns.longer
      rw [stackOf_running now] at longer
      exact Nat.lt_irrefl _ longer
    rw [split] at allowed ⊢
    refine ih next allowed ?_
    rw [run_append]
    exact returns.tail

/-- What a compile has come to in the course of the inputs it could come to as it began. -/
theorem Completes.yields (h : w.Completes inputs (.compile text) (answerSignal o)) (new : w.IsNew)
    (allowed : ∀ i ∈ inputs, i.IsPublic) : w.Yields inputs text o := by
  obtain ⟨before, mid, after, t, fs, rfl, begun, returns⟩ := h
  have split : before ++ .tick :: (mid ++ after) = before ++ [.tick] ++ mid ++ after := by simp
  rw [split] at allowed ⊢
  have given : ∀ i ∈ before ++ [.tick] ++ mid, i.IsPublic := fun i mem => allowed i (List.mem_append_left _ mem)
  have early : ∀ i ∈ before, i.IsPublic := fun i mem => given i (by simp [mem])
  have flight := run_flight new early
  have begins : w.Phase (before ++ [.tick]) t fs text := (Phase.asked begun).apply flight trivial fun s _ ends now => by
    cases begun.symm.trans now
    exact ends
  have now : (w.run (before ++ [.tick] ++ mid)).current = some (t, fs, answerSignal o) := by
    rw [run_append]
    exact returns.2
  rcases (begins.along new given returns).result now (answerSignal_end o) with eq | ⟨o', eq, yields⟩
  · cases o <;> cases eq
  · obtain rfl := answerSignal_inj eq
    exact yields.mono after

/-! ### Exports -/

/-- An export that is compiled comes back with what it makes of a result of the compile, or was cancelled. -/
theorem Phase.exports (h : w.Phase pre t (.exporting doc kind title :: fs) text) (new : w.IsNew)
    (allowed : ∀ i ∈ pre ++ mid, i.IsPublic) (returns : (w.run pre).ComesBack t fs mid s) :
    s = .cancelled ∨ ∃ o, s = w.exportSignal kind title o ∧ w.Yields (pre ++ mid) text o := by
  induction mid generalizing pre with
  | nil =>
    have above := h.above
    have now : (w.run pre).current = some (t, fs, s) := returns.2
    rw [stackOf_running now, List.length_cons] at above
    exact absurd above (Nat.not_succ_le_self _)
  | cons i rest ih =>
    have early : ∀ j ∈ pre, j.IsPublic := fun j mem => allowed j (List.mem_append_left _ mem)
    have split : pre ++ i :: rest = pre ++ [i] ++ rest := by simp
    by_cases ended : i = .tick ∧ ∃ s', s'.IsEnd ∧ (w.run pre).current = some (t, .exporting doc kind title :: fs, s')
    · -- the compile is over: the export makes something of it and is back itself
      obtain ⟨rfl, s', ends, now⟩ := ended
      have past : ∀ s'', (w.run pre).tick.current = some (t, fs, s'') → s = s'' :=
        fun s'' popped => (returns.tail.at_once popped).2
      rcases h.result now ends with rfl | ⟨o, rfl, yields⟩
      · refine .inl (past _ ?_)
        rw [tick_running now]
        rfl
      · refine .inr ⟨o, past _ ?_, yields.mono _⟩
        rw [tick_running now, ← (new.sane.run_fixed early).exportSignal]
        rcases o with f | story | ⟨k, m⟩
        · rfl
        · rfl
        · rfl
    · have next := h.apply (run_flight new early) (allowed i (by simp)) fun s' tick ends now => ended ⟨tick, s', ends, now⟩
      rw [split] at allowed ⊢
      refine ih next allowed ?_
      rw [run_append]
      exact returns.tail

/-- What an export comes back with, unless it is cancelled: the text as it is, or what it makes of a result of the
compile. -/
theorem Completes.exports (h : w.Completes inputs (.exportAs doc text kind title) s) (new : w.IsNew)
    (allowed : ∀ i ∈ inputs, i.IsPublic) : (kind = .source ∧ s = .value (.exported ⟨.source, text⟩)) ∨
      kind ≠ .source ∧ (s = .cancelled ∨ ∃ o, s = w.exportSignal kind title o ∧ w.Yields inputs text o) := by
  obtain ⟨before, mid, after, t, fs, rfl, begun, returns⟩ := h
  have split : before ++ .tick :: (mid ++ after) = before ++ [.tick] ++ mid ++ after := by simp
  have begins : (w.run (before ++ [.tick])) = (w.run before).beginExport t fs doc text kind title := by
    rw [run_append]
    exact tick_running begun
  have compiled (other : kind ≠ .source)
      (now : (w.run (before ++ [.tick])).current = some (t, .exporting doc kind title :: fs, .start (.compile text))) :
      kind ≠ .source ∧ (s = .cancelled ∨ ∃ o, s = w.exportSignal kind title o ∧
        w.Yields (before ++ .tick :: (mid ++ after)) text o) := by
    refine ⟨other, ?_⟩
    rw [split] at allowed ⊢
    have given : ∀ i ∈ before ++ [.tick] ++ mid, i.IsPublic := fun i mem => allowed i (List.mem_append_left _ mem)
    exact ((Phase.asked now).exports new given returns).imp id fun ⟨o, eq, yields⟩ => ⟨o, eq, yields.mono after⟩
  cases kind with
  | source =>
    have now : (w.run (before ++ [.tick])).current = some (t, fs, .value (.exported ⟨.source, text⟩)) := by
      rw [begins]
      rfl
    exact .inl ⟨rfl, (returns.at_once now).2⟩
  | compiled | web => exact .inr (compiled nofun (by rw [begins]; rfl))

/-! ### Previews -/

/-- A task that holds a lock after a step has held it before and has no answer yet, or is told to compile. -/
theorem Next.holds {l : Landing} {ks : List Slot} {r : Request} (h : Next w t fs s l ks)
    (subscribers : ∀ y ∈ w.subscribers, y.IsPublic)
    (asked : ∀ i u todo, .acting i u todo ∈ fs → ∀ op, .ask op ∈ todo → op.IsPublic)
    (alone : ∀ r gs, fs = .holding r :: gs → gs = []) (mem : .holding r ∈ l.frames) :
    (.holding r ∈ fs ∧ (s.IsEnd → fs ≠ [.holding r])) ∨ ∃ gs, l = .go (.holding r :: gs)
    (.start (.compile r.text)) := by
  have below {f : Frame} {gs : List Frame} (other : ∀ r, f ≠ .holding r) (mem : .holding r ∈ gs) :
      .holding r ∈ f :: gs ∧ (s.IsEnd → f :: gs ≠ [.holding r]) :=
    ⟨List.mem_cons_of_mem f mem, fun _ eq => other r (List.cons.inj eq).1⟩
  have answered {r' : Request} {gs : List Frame} (eq : fs = .holding r' :: gs) (mem : .holding r ∈ gs) : False := by
    rw [alone r' gs eq] at mem
    cases mem
  cases h with
  | turn aside h =>
    refine .inl ⟨?_, ?_⟩
    · have kept : Frame.Kept w.subscribers (· ≠ .holding r) := by
        refine ⟨?_, by simp, by simp, by simp⟩
        rintro _ simple rfl
        exact simple
      refine Classical.byContradiction fun none => ?_
      have others : ∀ f ∈ fs, f ≠ .holding r := by
        rintro _ mem rfl
        exact none mem
      exact (h.keeps kept subscribers asked others).1 _ mem rfl
    · rintro ends rfl
      cases aside.plain ends
  | edits => exact .inl ⟨by simpa [Landing.frames] using mem, False.elim⟩
  | misnamed => exact .inl ⟨mem, False.elim⟩
  | closes h =>
    cases h with
    | through => exact .inl ⟨mem, False.elim⟩
    | waits => exact .inl ⟨by simpa [Landing.frames] using mem, False.elim⟩
  | rests h =>
    rcases h with rfl | ⟨n, rfl⟩
    · exact .inl ⟨by simpa [Landing.frames] using mem, False.elim⟩
    · exact .inl ⟨by simpa [Landing.frames] using mem, False.elim⟩
  | abandons | leaves => exact .inl (below (by simp) mem)
  | quieted h =>
    rcases h with ⟨-, rfl⟩ | ⟨-, rfl | rfl⟩
    · exact .inl (below (by simp) mem)
    · exact .inl (below (by simp) (by simpa [Landing.frames] using mem))
    · rcases List.mem_cons.1 mem with same | mem
      · cases same
        exact .inr ⟨_, rfl⟩
      · exact .inl (below (by simp) mem)
  | called h =>
    rcases h with ⟨-, rfl⟩ | ⟨-, rfl⟩
    · exact .inl (below (by simp) mem)
    · rcases List.mem_cons.1 mem with same | mem
      · cases same
        exact .inr ⟨_, rfl⟩
      · exact .inl (below (by simp) mem)
  | settles => exact (answered rfl (by simpa [Landing.frames] using mem)).elim
  | drops | lets => exact (answered rfl mem).elim
  | breaks h =>
    refine .inl (below (fun r eq => ?_) mem)
    rcases h with rfl | rfl
    · cases eq
    · cases eq

/-- A task that has begun a compile under a lock, be it in this step, was there before. -/
theorem Flight.starter_there (h : Flight ms b w) {i : Input} (begun : HasStarted (ms ++ w.marks i) t) :
    t < w.tasks.length := by
  obtain ⟨time, r, text, mem⟩ := begun
  rcases List.mem_append.1 mem with old | new
  · exact h.booked.known.starters t ⟨time, r, text, old⟩
  · cases i with
    | tick =>
      have marked : w.mark? = some (.started time t r text) := by simpa [marks] using new
      obtain ⟨-, fs, running⟩ := mark?_started marked
      exact h.there running
    | _ => cases new

/-- A task that holds a lock compiles the text of its request. -/
theorem run_phase (new : w.IsNew) (allowed : ∀ i ∈ inputs, i.IsPublic) {q : Post} {r : Request}
    (found : (w.run inputs).post? t = some q) (mem : .holding r ∈ q.frames) :
    w.Phase inputs t [.holding r] r.text := by
  induction inputs using List.reverseRecOn generalizing q with
  | nil => simp [World.run, post?, bench, new.current, new.tasks] at found
  | append_singleton pre i ih =>
    have early : ∀ j ∈ pre, j.IsPublic := fun j mem => allowed j (List.mem_append_left _ mem)
    have given : i.IsPublic := allowed i (by simp)
    have flight := run_flight new early
    have flight' := flight.apply given
    have run : w.run (pre ++ [i]) = (w.run pre).apply i := by simp [World.run]
    rw [run] at found
    have told {gs : List Frame} (now : ((w.run pre).apply i).current = some (t, .holding r :: gs, .start (.compile r.text))) :
        w.Phase (pre ++ [i]) t [.holding r] r.text := by
      obtain rfl := (flight'.stage (flight'.post?_running now)).at_holding.1
      exact .asked (run ▸ now)
    by_cases steps : (w.run pre).Steps i t
    · obtain ⟨rfl, fs, s, running⟩ := steps
      obtain ⟨x, l, deeds, landing, eq⟩ := flight.sane.reaches running
      have moves : (w.run pre).apply .tick = x.land t l := (tick_running running).trans eq
      have there : t < x.tasks.length := Nat.lt_of_lt_of_le (flight.there running) deeds.grown.length
      rw [moves] at flight' found told
      obtain ⟨q', found', frames, -⟩ := land_at flight' there
      obtain rfl := Option.some.inj (found.symm.trans found')
      have alone : ∀ r gs, fs = .holding r :: gs → gs = [] := by
        rintro r gs rfl
        exact (flight.stage (flight.post?_running running)).at_holding.1
      rcases landing.holds flight.sane.subscribers (asked_public (flight.sane.running t fs s running).1) alone (frames ▸ mem) with
        ⟨before, unanswered⟩ | ⟨gs, rfl⟩
      · refine (ih early (flight.post?_running running) before).apply flight given fun s' _ ends now => ?_
        cases running.symm.trans now
        exact unanswered ends rfl
      · exact told rfl
    · rcases ((flight'.stage found).holds mem).2.2 with rfl | ⟨time, started⟩
      · exact told (flight'.steady.midst.now_of_running found rfl)
      · obtain ⟨q₀, before⟩ : ∃ q₀, (w.run pre).post? t = some q₀ := by
          refine ⟨_, List.getElem?_eq_getElem ?_⟩
          rw [bench_length]
          exact flight.starter_there ⟨time, _, _, started⟩
        obtain ⟨q', found', same⟩ := flight.apply_post given before steps
        obtain rfl := Option.some.inj (found.symm.trans found')
        have frames : q.frames = q₀.frames := by
          rcases same with rfl | ⟨-, frames, -⟩
          · rfl
          · exact frames
        refine (ih early before (frames ▸ mem)).apply flight given fun s tick _ now => ?_
        exact steps ⟨tick, _, s, now⟩

/-- What a document shows is the mode of an edit, or what the compile of its text has come to. -/
theorem run_previews (new : w.IsNew) (allowed : ∀ i ∈ inputs, i.IsPublic) {x : SlotId} {k : Slot}
    {u : Update} {name : String}
    (found : (w.run inputs).records[x]? = some k) (named : k.doc = .name name) (shown : k.lastUpdate = some u) :
    ∃ e, .edited e ∈ w.marksAlong inputs ∧ e.slot = x ∧ u.slot = x ∧ e.generation = u.generation ∧
      (u.mode = firstMode e.text ∨ ∃ o, w.Yields inputs e.text o ∧ u.mode = answerMode o) := by
  induction inputs using List.reverseRecOn generalizing k with
  | nil => simp [World.run, records, new.slots] at found
  | append_singleton pre i ih =>
    have early : ∀ j ∈ pre, j.IsPublic := fun j mem => allowed j (List.mem_append_left _ mem)
    have flight := run_flight new early
    have run : w.run (pre ++ [i]) = (w.run pre).apply i := by simp [World.run]
    have along : w.marksAlong (pre ++ [i]) = w.marksAlong pre ++ (w.run pre).marks i := by
      simp [marksAlong_append, marksAlong]
    rw [run] at found
    rw [along]
    cases flight.sane.apply_revised i found with
    | kept at_x later same =>
      obtain ⟨e, edit, slot, slot', generation, shows⟩ := ih early at_x (later.doc ▸ named) (same ▸ shown)
      refine ⟨e, List.mem_append_left _ edit, slot, slot', generation, shows.imp id ?_⟩
      rintro ⟨o, yields, mode⟩
      exact ⟨o, yields.mono _, mode⟩
    | @settled k t r fs o u' tick running here at_x later current shown' isFor =>
      obtain rfl := Option.some.inj (shown'.symm.trans shown)
      obtain ⟨⟨e, edit, -, slot, -, generation, text⟩, -⟩ := flight.answered running
      obtain rfl := (flight.stage (flight.post?_running running)).at_holding.1
      have phase := run_phase new early (flight.post?_running running) List.mem_cons_self
      refine ⟨e, List.mem_append_left _ edit, slot.trans here, isFor.slot.trans here,
        generation.trans isFor.generation.symm, .inr ⟨o, ?_, isFor.mode⟩⟩
      rcases phase.result running (answerSignal_end o) with eq | ⟨o', eq, yields⟩
      · cases o <;> cases eq
      · obtain rfl := answerSignal_inj eq
        exact text ▸ yields.mono _
    | @edited t fs doc text tick running here of_doc generation _ _ shows =>
      subst tick
      obtain rfl : doc = .name name := by
        refine eq_name_of_same ?_
        rw [named] at of_doc
        simp only [DocId.same, decide_eq_true_eq] at of_doc ⊢
        exact of_doc.symm
      obtain ⟨u', shown', isFor⟩ := shows name rfl
      obtain rfl := Option.some.inj (shown'.symm.trans shown)
      have marked : (w.run pre).marks .tick = [.edited ((w.run pre).editBegun (.name name) text)] := by
        simp [marks, mark?, running]
      rw [marked]
      exact ⟨_, List.mem_append_right _ List.mem_cons_self, here, isFor.slot, isFor.generation.symm, .inl isFor.mode⟩

/-- A document that shows an edit to a text that needs compiling shows what a compile of the text has come to. -/
theorem Previews.yields {m : Mode} (h : w.Previews inputs text m) (new : w.IsNew) (allowed : ∀ i ∈ inputs, i.IsPublic)
    (needed : needsCompile text = true) : ∃ o, w.Yields inputs text o ∧ m = answerMode o := by
  obtain ⟨name, u, e, last, edit, slot, generation, rfl, rfl, settled⟩ := h
  obtain ⟨x, registered, last⟩ := Option.bind_eq_some_iff.1 last
  obtain ⟨k, found, -, named⟩ := slotOf?_record registered
  have record : (w.run inputs).records[x]? = some k.unlocked := by simp [found]
  obtain ⟨e', edit', slot', here, generation', shows⟩ := run_previews new allowed record named
    (by simpa [found, Slot.unlocked] using last)
  obtain rfl : e' = e := ((run_flight new allowed).booked.rising x).eq (mem_editsOf.2 ⟨edit', slot'⟩)
    (mem_editsOf.2 ⟨edit, slot.trans here⟩) (generation'.trans generation.symm)
  rcases shows with first | ⟨o, yields, mode⟩
  · have unclassified : classify e'.text = none := by simpa [needsCompile] using needed
    exact absurd (first.trans (by simp [firstMode, unclassified])) settled
  · exact ⟨o, yields, mode⟩

/-! ### Agreement -/

theorem Comes.typed (h : w.Comes text o) (typed : w.IsTyped text) : ∃ out, o = .ok out := by
  cases h with
  | lost found => exact absurd found (typed.located _)
  | unprepared _ fault => exact absurd fault (typed.written _ _)
  | crashed _ _ fault => exact absurd fault (typed.started _ _)
  | missing | unwritten | refused | ended | timedOut => exact ⟨_, rfl⟩

/-- Take a text that needs compiling, and let the compiler be searched for without a fault and be
kept from getting the text or from starting on it by nothing but a refusal of the system. Then no
export of the text ends in a fault other than a failed export, however the compile goes. Let,
further, all compiles of the text come to the same. Then a document that shows an edit to the text
shows a compiled story just where an export of the compiled story hands it over, and where an export
as a web page hands over a page this is the page of the story that is shown; and the document shows
diagnostics just where both exports fail with them. -/
theorem previews_match_exports {start : World} (new : start.IsNew) (allowed : ∀ i ∈ inputs, i.IsPublic)
    (needed : needsCompile text = true) (typed : ∀ before, before <+: inputs → (start.run before).IsTyped text) :
    (∀ doc kind title s, start.Completes inputs (.exportAs doc text kind title) s → s ≠ .cancelled →
      (∃ content, s = .value (.exported ⟨kind, content⟩)) ∨ ∃ k m, s = .fault (.exportFailed k m)) ∧
    ∀ o, (∀ o', start.Completes inputs (.compile text) (answerSignal o') → o' = o) →
      ∀ m, start.Previews inputs text m →
      ∀ doc title s, start.Completes inputs (.exportAs doc text .compiled title) s → s ≠ .cancelled →
      ∀ doc' title' s', start.Completes inputs (.exportAs doc' text .web title') s' → s' ≠ .cancelled →
        (∀ a, m = .compiled a ↔ s = .value (.exported ⟨.compiled, a⟩)) ∧
        (∀ page, s' = .value (.exported ⟨.web, page⟩) ↔
          ∃ a, m = .compiled a ∧ page = start.gallery.build (.compiled a) title') ∧
        ∀ e, m = .compilerError e ↔ ∃ k, s = .fault (.exportFailed k e) ∧ s' = .fault (.exportFailed k e) := by
  have outcome {o} (yields : start.Yields inputs text o) : ∃ out, o = .ok out := by
    obtain ⟨-, before, early, comes⟩ := yields
    exact comes.typed (typed before early)
  constructor
  · intro doc kind title s done calm
    rcases done.exports new allowed with ⟨rfl, rfl⟩ | ⟨-, rfl | ⟨o, rfl, yields⟩⟩
    · exact .inl ⟨_, rfl⟩
    · exact absurd rfl calm
    · obtain ⟨story | ⟨k, m⟩, rfl⟩ := outcome yields
      · exact .inl ⟨_, rfl⟩
      · exact .inr ⟨k, m, rfl⟩
  · intro o same m shown doc title s done calm doc' title' s' done' calm'
    obtain ⟨o₁, yields, rfl⟩ := shown.yields new allowed needed
    obtain rfl := same o₁ yields.1
    have exported {doc kind title s} (done : start.Completes inputs (.exportAs doc text kind title) s) (calm : s ≠ .cancelled)
        (compiled : kind ≠ .source) : s = start.exportSignal kind title o₁ := by
      rcases done.exports new allowed with ⟨source, -⟩ | ⟨-, eq | ⟨o₂, eq, yields'⟩⟩
      · exact absurd source compiled
      · exact absurd eq calm
      · exact same o₂ yields'.1 ▸ eq
    obtain rfl := exported done calm nofun
    obtain rfl := exported done' calm' nofun
    obtain ⟨story | ⟨k, d⟩, rfl⟩ := outcome yields
    · simp [answerMode, exportSignal, exportContent, Mode.compiled, Mode.compilerError, eq_comm]
    · simp [answerMode, exportSignal, Mode.compiled, Mode.compilerError]

end

/-- An editor whose compiler makes an empty story of every text. -/
def inkSample : World :=
  start ⟨0, .whole 0, false, fun _ => ⟨none, none, 0, 0, [], .bytes [123, 125], false, none⟩⟩ ⟨.ok (some "ink"), []⟩ (.new "")
    [.script fun _ => []]

theorem isNew_inkSample : inkSample.IsNew := isNew_start _ _ _ (by simp [Subscriber.IsPublic])

/-- A text is edited, exported as a compiled story and exported as a web page. -/
def exporting : List Input :=
  editing "Hi" 17 ++ Input.begin (.exportAs "a" "Hi" .compiled none) :: List.replicate 6 Input.tick ++
    Input.begin (.exportAs "a" "Hi" .web (some "T")) :: List.replicate 6 Input.tick

theorem isPublic_exporting : ∀ i ∈ exporting, i.IsPublic := by
  intro i mem
  simp only [exporting, editing, List.cons_append, List.mem_cons, List.mem_append, List.mem_replicate] at mem
  rcases mem with rfl | ((⟨-, rfl⟩ | rfl | ⟨-, rfl⟩) | rfl | ⟨-, rfl⟩)
  · exact .edit _ _
  · trivial
  · exact .exportAs _ _ _ _
  · trivial
  · exact .exportAs _ _ _ _
  · trivial

theorem exporting_equipped : ∀ before ∈ exporting.inits, (inkSample.run before).finder.answer = .ok (some "ink") ∧
    ((inkSample.run before).setup.child "Hi").writeFault = none ∧
    ((inkSample.run before).setup.child "Hi").startFault = none ∧
    ((inkSample.run before).setup.child "Hi").outcome.1 = .success "\x7b\x7d" ∧
    (inkSample.run before).setup.limit.isZero = true := by
  decide +kernel

theorem run_begin_current {w : World} {inputs : List Input} {t : TaskId} (idle : (w.run inputs).current.isNone = true)
    (there : (w.run inputs).tasks.length = t) (op : Op) :
    (w.run (inputs ++ [.begin op])).current = some (t, [], .start op) := by
  rw [run_append, ← there]
  change ((w.run inputs).apply (.begin op)).current = _
  simp only [World.apply, idle, if_true]
  rfl

/-- What the running task comes back with, if that is an export or a fault. -/
def handed? (w : World) : Option (TaskId × Except Fault Exported) :=
  match w.current with
  | some (t, [], .value (.exported e)) => some (t, .ok e)
  | some (t, [], .fault f) => some (t, .error f)
  | _ => none

theorem handed?_current {w : World} {t : TaskId} {r : Except Fault Exported} (h : w.handed? = some (t, r)) :
    w.current = some (t, [], match r with | .ok e => .value (.exported e) | .error f => .fault f) := by
  unfold handed? at h
  split at h
  · rename_i running
    cases h
    exact running
  · rename_i running
    cases h
    exact running
  · cases h

theorem exporting_compiled : inkSample.Completes exporting (.exportAs "a" "Hi" .compiled none)
    (.value (.exported ⟨.compiled, "\x7b\x7d"⟩)) := by
  refine ⟨editing "Hi" 17 ++ [.begin (.exportAs "a" "Hi" .compiled none)], List.replicate 4 .tick,
    .tick :: .begin (.exportAs "a" "Hi" .web (some "T")) :: List.replicate 6 .tick, 2, [], rfl, ?_, ?_, ?_⟩
  · exact run_begin_current (by decide +kernel) (by decide +kernel) _
  · decide +kernel
  · exact handed?_current (r := .ok ⟨.compiled, "\x7b\x7d"⟩) (by decide +kernel)

theorem exporting_web : ∃ page, inkSample.Completes exporting (.exportAs "a" "Hi" .web (some "T"))
    (.value (.exported ⟨.web, page⟩)) := by
  let before : List Input := editing "Hi" 17 ++ .begin (.exportAs "a" "Hi" .compiled none) :: List.replicate 6 .tick
  let web : Input := .begin (.exportAs "a" "Hi" .web (some "T"))
  have handed : (((inkSample.run (before ++ [web] ++ [.tick])).run (List.replicate 4 .tick)).handed?.map fun p =>
      (p.1, p.2.toOption.map (·.kind))) = some (3, some .web) := by decide +kernel
  obtain ⟨⟨t, f | ⟨kind, page⟩⟩, handed, eq⟩ := Option.map_eq_some_iff.1 handed
  · cases eq
  cases eq
  refine ⟨page, before ++ [web], List.replicate 4 .tick, [.tick], 3, [], rfl, ?_, ?_, handed?_current handed⟩
  · exact run_begin_current (by decide +kernel) (by decide +kernel) _
  · decide +kernel

theorem previews_of_shown {w : World} {inputs : List Input} {text : String} {x : SlotId} {g : Nat}
    {m : Mode} (name : String)
    (shown : ((w.run inputs).lastUpdate? (.name name)).map (fun u => (u.slot, u.generation, u.mode)) = some (x, g, m))
    (edited : (g, text) ∈ (editsOf (w.marksAlong inputs) x).map fun e => (e.generation, e.text))
    (settled : m ≠ .pending) :
    w.Previews inputs text m := by
  obtain ⟨u, last, eq⟩ := Option.map_eq_some_iff.1 shown
  obtain ⟨e, mem, eq'⟩ := List.mem_map.1 edited
  obtain ⟨edit, slot⟩ := mem_editsOf.1 mem
  simp only [Prod.mk.injEq] at eq eq'
  obtain ⟨at_x, generation, rfl⟩ := eq
  exact ⟨name, u, e, last, edit, slot.trans at_x.symm, eq'.1.trans generation.symm, eq'.2, rfl, settled⟩

theorem exporting_previews : inkSample.Previews exporting "Hi" (.compiled "\x7b\x7d") :=
  previews_of_shown (x := 0) (g := 1) "a" (by decide +kernel) (by decide +kernel) nofun

theorem exporting_agrees : ∃ page, inkSample.Completes exporting (.exportAs "a" "Hi" .web (some "T"))
    (.value (.exported ⟨.web, page⟩)) ∧ page = inkSample.gallery.build (.compiled "\x7b\x7d") (some "T") := by
  obtain ⟨page, web⟩ := exporting_web
  have typed : ∀ before, before <+: exporting → (inkSample.run before).IsTyped "Hi" := by
    intro before early
    obtain ⟨finder, written, starts, -⟩ := exporting_equipped before ((List.mem_inits _ _).2 early)
    exact ⟨by simp [finder], by simp [written], by simp [starts]⟩
  have same : ∀ o, inkSample.Completes exporting (.compile "Hi") (answerSignal o) → o = .ok (.success "\x7b\x7d") := by
    intro o done
    obtain ⟨-, before, early, comes⟩ := done.yields isNew_inkSample isPublic_exporting
    obtain ⟨finder, written, starts, success, limit⟩ := exporting_equipped before ((List.mem_inits _ _).2 early)
    cases comes <;> simp_all
  have agree := (previews_match_exports isNew_inkSample isPublic_exporting (by decide) typed).2 _ same _ exporting_previews
    "a" none _ exporting_compiled nofun "a" (some "T") _ web nofun
  obtain ⟨a, eq, built⟩ := (agree.2.1 page).1 rfl
  exact ⟨page, web, eq ▸ built⟩

/-- An editor whose compiler is kept from starting by a failure that is no refusal of the system. -/
def crashSample : World :=
  start ⟨0, .whole 0, false, fun _ => ⟨none, some (.crashed "RuntimeError" "boom"), 0, 0, [], .missing, false, none⟩⟩
    ⟨.ok (some "ink"), []⟩ (.new "") [.script fun _ => []]

/-- Where the compiler is kept from starting by a failure that is no refusal of the system, the document shows its
message as diagnostics, and the export ends in the failure itself. -/
theorem crash_escapes_export : crashSample.Previews exporting "Hi" (.compilerError "boom") ∧
    ∃ f, crashSample.Completes exporting (.exportAs "a" "Hi" .compiled none) (.fault f) ∧
      ∀ k m, f ≠ .exportFailed k m := by
  refine ⟨previews_of_shown (x := 0) (g := 1) "a" rfl (.head _) nofun,
    .setup "RuntimeError" "boom", ?_, nofun⟩
  refine ⟨editing "Hi" 17 ++ [.begin (.exportAs "a" "Hi" .compiled none)], List.replicate 2 .tick,
    List.replicate 3 .tick ++ .begin (.exportAs "a" "Hi" .web (some "T")) :: List.replicate 6 .tick, 2, [], rfl, ?_, ?_,
    ?_⟩
  · exact run_begin_current rfl rfl _
  · decide
  · exact handed?_current (r := .error (.setup "RuntimeError" "boom")) rfl

end World
end InkPreview.Live
