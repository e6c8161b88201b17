import InkPreview.Proofs.Live.Verdict
/-!
What exports hand over. A compile comes back with what the search for a compiler and the compiler answer for its text,
unless its task is cancelled meanwhile or the limit is used up; and an export makes what it hands over of nothing but
that. No step of an export touches a slot, a lock, a page or a stored document. Main statement: `exports_secluded`.
-/
namespace InkPreview.Live
namespace World

/-- In `w` the task begins to export the text, above the frames `fs`, and it is back with the signal after the inputs
`mid`. -/
structure Exports (w : World) (t : TaskId) (fs : List Frame) (doc text : String) (kind : ExportKind)
    (title : Option String)
    (mid : List Input) (s : Signal) : Prop where
  begun : w.current = some (t, fs, .start (.exportAs doc text kind title))
  returns : w.tick.ComesBack t fs mid s

/-- How an export may end whose compile begins in `v`, and is back after the inputs `rest`. -/
inductive Handover (v : World) (t : TaskId) (tag text : String) (kind : ExportKind) (title : Option String)
    (rest : List Input) : Signal → Prop
  /-- It hands over what the search and the compiler answer for the text. -/
  | answered : Handover v t tag text kind title rest
      (exportAnswer tag text kind title v.finder.answer (v.setup.child text))
  /-- The task has been cancelled during the compile. -/
  | cancelled (cut : v.tick.CutOff t rest) : Handover v t tag text kind title rest .cancelled
  /-- The compiler has been started, and the compile has used up the limit. -/
  | timedOut (launches : Launches v.finder.answer (v.setup.child text)) (expired : v.Expired (v.tick.run rest)) :
      Handover v t tag text kind title rest (.fault (.exportFailed .processError (timedOutMessage v.setup.limit)))

section
variable {ms : List Mark} {b : Bench} {start w v : World} {S : Except Fault Outcome → Prop} {t : TaskId} {f : Frame}
  {base fs : List Frame} {inputs mid rest : List Input} {r s : Signal} {doc tag text : String} {kind : ExportKind}
  {title : Option String}

/-! ### What a compile comes back with -/

/-- A compile that finds a compiler, and can start it on the text, starts a process. -/
theorem launches_starts (there : t < w.tasks.length) (begun : w.current = some (t, base, .start (.compile text)))
    (launches : Launches w.finder.answer (w.setup.child text)) : w.processes.length < w.tick.processes.length := by
  obtain ⟨⟨exe, found⟩, written, started⟩ := launches
  have bides : w.tick.Bides t w.processes.length (w.setup.child text) False base := by
    rw [show w.tick = w.beginCompile t base text from tick_running begun]
    exact bides_beginCompile there found ⟨written, started⟩
  obtain ⟨k, at_p, -⟩ := Option.map_eq_some_iff.1 bides.child
  exact (List.getElem?_eq_some_iff.1 at_p).1

/-- A compile comes back with what the search and the compiler answer for the text, or with the cancellation of its
task, or because its limit is used up. -/
theorem Flight.compile_ends (h : Flight ms b w) (balanced : w.ledger.Balanced) (tended : w.Tended)
    (begun : w.current = some (t, base, .start (.compile text))) (allowed : ∀ i ∈ rest, i.IsPublic)
    (returns : w.tick.ComesBack t base rest r) :
    r = answerSignal (compileAnswer w.finder.answer (w.setup.child text)) ∨ r = .cancelled ∧ w.tick.CutOff t rest ∨
      Launches w.finder.answer (w.setup.child text) ∧ w.Expired (w.tick.run rest) ∧
        r = .value (.outcome w.overdue) := by
  by_cases launches : Launches w.finder.answer (w.setup.child text)
  · have more := launches_starts (h.there begun) begun launches
    have next : Flight _ _ w.tick := h.apply (i := .tick) trivial
    have minding := h.run_minding balanced tended begun more allowed returns.1 (Nat.le_refl _)
    rw [List.take_length] at minding
    obtain ⟨own, -, result⟩ := minding.back (next.run allowed) returns.2
    rcases result with cancelled | done | ⟨lapsed, late⟩
    · exact .inr (.inl ⟨cancelled, own cancelled⟩)
    · refine .inl (done.trans ?_)
      rw [compileAnswer_launches launches]
      rfl
    · have fixed := (h.sane.apply_fixed .tick).trans (next.sane.run_fixed allowed)
      have same : (w.tick.run rest).overdue = w.overdue := by
        rw [overdue, overdue]
        exact congrArg _ (congrArg timedOutMessage fixed.limit)
      exact .inr (.inr ⟨launches, late, same ▸ lapsed⟩)
  · have back : w.tick.current = some (t, base, answerSignal (compileAnswer w.finder.answer (w.setup.child text))) := by
      rw [show w.tick = w.beginCompile t base text from tick_running begun]
      exact beginCompile_idle launches
    exact .inl (returns.at_once back).2

/-! ### What an export makes of it -/

theorem ComesBack.split {ys : List Input} (h : w.ComesBack t fs (rest ++ ys) s) : (w.run rest).ComesBack t fs ys s := by
  induction rest generalizing w with
  | nil => exact h
  | cons i rest ih => exact ih h.tail

/-- A task that compiles comes back to the frame below before it comes back to those under it. -/
theorem Flight.back_first (h : Flight ms b w) (work : w.Working S t (f :: fs)) (allowed : ∀ i ∈ mid, i.IsPublic)
    (returns : w.ComesBack t fs mid s) : ∃ rest ys r, mid = rest ++ ys ∧ w.ComesBack t (f :: fs) rest r := by
  induction mid generalizing ms w with
  | nil =>
    obtain ⟨pre, eq, -⟩ := h.sits_running work returns.2
    exact absurd (congrArg List.length eq) (by simp; omega)
  | cons i mid ih =>
    rcases work.place h with ⟨r, back⟩ | above
    · exact ⟨[], i :: mid, r, rfl, nofun, back⟩
    · have given : i.IsPublic := allowed i List.mem_cons_self
      have next := h.apply_working work given fun s _ now => by
        rw [stackOf_running now] at above
        exact Nat.lt_irrefl _ above
      obtain ⟨rest, ys, r, rfl, away, back⟩ :=
        ih (h.apply given) next (fun j mem => allowed j (List.mem_cons_of_mem i mem))
        returns.tail
      refine ⟨i :: rest, ys, r, rfl, fun n lt => ?_, back⟩
      cases n with
      | zero => exact above
      | succ n => exact away n (Nat.lt_of_succ_lt_succ lt)

/-- An export whose compile is back hands over what it makes of the result, and is cancelled if the compile was. -/
theorem Flight.exported_back (h : Flight ms b w) (allowed : ∀ i ∈ mid, i.IsPublic)
    (back : w.current = some (t, .exporting doc kind title :: fs, r)) (returns : w.ComesBack t fs mid s) :
    (r = .cancelled → s = .cancelled) ∧ ∀ o, r = answerSignal o → s = w.exportSignal kind title o := by
  induction mid generalizing ms w with
  | nil =>
    cases back.symm.trans returns.2
  | cons i mid ih =>
    have given : i.IsPublic := allowed i List.mem_cons_self
    by_cases tick : i = .tick
    · subst tick
      have moved {s' : Signal} (popped : w.tick.current = some (t, fs, s')) : s = s' := (returns.tail.at_once popped).2
      refine ⟨?_, ?_⟩
      · rintro rfl
        refine moved ?_
        rw [tick_running back]
        rfl
      · rintro o rfl
        refine moved ?_
        rw [tick_running back]
        rcases o with f | story | ⟨k, m⟩
        · rfl
        · rfl
        · rfl
    · obtain ⟨cancelled, answered⟩ := ih (h.apply given) (fun j mem => allowed j (List.mem_cons_of_mem i mem))
        (current_apply back tick) returns.tail
      exact ⟨cancelled, fun o eq => (answered o eq).trans ((h.sane.apply_fixed i).exportSignal kind title o)⟩

/-- A compile that is asked for begins with one of the inputs. -/
theorem Flight.asked_begins (h : Flight ms b w) (asked : w.current = some (t, f :: fs, .start (.compile text)))
    (allowed : ∀ i ∈ mid, i.IsPublic) (returns : w.ComesBack t fs mid s) : ∃ xs zs, mid = xs ++ .tick :: zs ∧
      (w.run xs).current = some (t, f :: fs, .start (.compile text)) ∧ (w.run xs).tick.ComesBack t fs zs s := by
  induction mid generalizing ms w with
  | nil =>
    cases asked.symm.trans returns.2
  | cons i mid ih =>
    by_cases tick : i = .tick
    · subst tick
      exact ⟨[], mid, rfl, asked, returns.tail⟩
    · obtain ⟨xs, zs, rfl, now, later⟩ := ih (h.apply (allowed i List.mem_cons_self))
        (current_apply asked tick) (fun j mem => allowed j (List.mem_cons_of_mem i mem)) returns.tail
      exact ⟨i :: xs, zs, rfl, now, later⟩

/-- An export that compiles comes back with what the search and the compiler answer for its text as its compile begins,
unless it is cancelled during the compile or the compile uses up the limit. -/
theorem Flight.export_ends (h : Flight ms b w) (balanced : w.ledger.Balanced) (tended : w.Tended)
    (begun : w.current = some (t, .exporting doc kind title :: fs, .start (.compile text))) (other : kind ≠ .source)
    (allowed : ∀ i ∈ mid, i.IsPublic) (returns : w.tick.ComesBack t fs mid s) : ∃ rest ys r, mid = rest ++ ys ∧
      w.tick.ComesBack t (.exporting doc kind title :: fs) rest r ∧
      w.Handover t w.gallery.tag text kind title rest s := by
  have next : Flight _ _ w.tick := h.apply (i := .tick) trivial
  have work : w.tick.Working (w.Comes text) t (.exporting doc kind title :: fs) := by
    rw [show w.tick = w.beginCompile t (.exporting doc kind title :: fs) text from tick_running begun]
    exact working_beginCompile (h.there begun) _ text
  obtain ⟨rest, ys, r, rfl, compiled⟩ := next.back_first work allowed returns
  have early : ∀ i ∈ rest, i.IsPublic := fun i mem => allowed i (List.mem_append_left ys mem)
  have late : ∀ i ∈ ys, i.IsPublic := fun i mem => allowed i (List.mem_append_right rest mem)
  have fixed : w.Fixed (w.tick.run rest) := (h.sane.apply_fixed .tick).trans (next.sane.run_fixed early)
  obtain ⟨cancelled, answered⟩ := (next.run early).exported_back late compiled.2 returns.split
  refine ⟨rest, ys, r, rfl, compiled, ?_⟩
  rcases h.compile_ends balanced tended begun early compiled with answer | ⟨quit, cut⟩ | ⟨launches, expired, timedOut⟩
  · rw [answered _ answer, fixed.exportSignal, exportSignal_answer other]
    exact .answered
  · rw [cancelled quit]
    exact .cancelled cut
  · rw [answered (.ok w.overdue) timedOut]
    exact .timedOut launches expired

end

/-- After every run, with exports of all kinds and for any documents among it: no step of a task
that is in an export, or that follows a process for one, touches slots, locks, pages or stored
documents or has a subscriber or a client told of an update, and neither does the beginning or the
cancellation of an export. An export of the source hands over the text. Any other export compiles
the text, and comes back with what the search for a compiler and the compiler answer for this text
as the compile begins, with its cancellation if its task was cancelled during the compile, or with
the failure that the limit is used up if it is. -/
theorem exports_secluded {start : World} (new : start.IsNew) {inputs : List Input}
    (allowed : ∀ i ∈ inputs, i.IsPublic) :
    (∀ t, (start.run inputs).WorksForExport t → (start.run inputs).IsNext t →
      (start.run inputs).Aloof ((start.run inputs).apply .tick)) ∧
    (∀ t, (start.run inputs).WorksForExport t → (start.run inputs).Aloof ((start.run inputs).apply (.cancel t))) ∧
    (∀ doc text kind title,
      (start.run inputs).Aloof ((start.run inputs).apply (.begin (.exportAs doc text kind title)))) ∧
    ∀ before mid after t fs doc text kind title s, inputs = before ++ .tick :: (mid ++ after) →
      (start.run before).Exports t fs doc text kind title mid s →
      kind = .source ∧ s = .value (.exported ⟨.source, text⟩) ∨
        kind ≠ .source ∧ ∃ xs rest ys r, mid = xs ++ .tick :: (rest ++ ys) ∧
          ((start.run before).tick.run xs).current = some (t, .exporting doc kind title :: fs, .start (.compile text)) ∧
          ((start.run before).tick.run xs).tick.ComesBack t (.exporting doc kind title :: fs) rest r ∧
          ((start.run before).tick.run xs).Handover t start.gallery.tag text kind title rest s := by
  have flight := run_flight new allowed
  have meeting := run_meeting new allowed
  have tailed := run_tailed new allowed
  have exporting := run_exporting new allowed
  refine ⟨fun t works next => flight.next_aloof meeting tailed exporting works next, fun t works => ?_,
    fun doc text kind title => ?_, fun before mid after t fs doc text kind title s split exports => ?_⟩
  · simp only [World.apply]
    split
    · exact .cancel fun k found => flight.secluded_alone meeting exporting works found
    · exact .refl _
  · simp only [World.apply]
    split
    · exact ⟨rfl, rfl, rfl, rfl⟩
    · exact .refl _
  · have upTo : ∀ xs, xs <+: inputs → ∀ i ∈ xs, i.IsPublic := fun xs early i mem => allowed i (early.subset mem)
    have given : ∀ i ∈ mid, i.IsPublic := fun i mem => allowed i (by simp [split, mem])
    by_cases source : kind = .source
    · subst source
      have now : (start.run before).tick.current = some (t, fs, .value (.exported ⟨.source, text⟩)) := by
        rw [tick_running exports.begun]
        rfl
      exact .inl ⟨rfl, (exports.returns.at_once now).2⟩
    · have asked : (start.run before).tick.current =
          some (t, .exporting doc kind title :: fs, .start (.compile text)) := by
        rw [tick_running exports.begun]
        cases kind with
        | source => exact absurd rfl source
        | compiled | web => rfl
      have step : start.run (before ++ [.tick]) = (start.run before).tick := run_append _ _ _
      have begins := run_flight new (upTo (before ++ [.tick]) ⟨mid ++ after, by simp [split]⟩)
      rw [step] at begins
      obtain ⟨xs, zs, rfl, now, later⟩ := begins.asked_begins asked given exports.returns
      have soFar := upTo (before ++ .tick :: xs) ⟨.tick :: zs ++ after, by simp [split]⟩
      have there : start.run (before ++ .tick :: xs) = (start.run before).tick.run xs := run_append _ _ _
      have goesOn := run_flight new soFar
      have balanced := run_balanced new soFar
      have tended := run_tended new soFar
      have tag : (start.run (before ++ .tick :: xs)).gallery.tag = start.gallery.tag := (new.sane.run_fixed soFar).tag
      rw [there] at goesOn balanced tended tag
      obtain ⟨rest, ys, r, rfl, compiled, hands⟩ := goesOn.export_ends balanced tended now source
        (fun i mem => given i (by simp [mem])) later
      exact .inr ⟨source, xs, rest, ys, r, rfl, now, compiled, tag ▸ hands⟩

/-- A text is edited, and while it is compiled for the preview the export of another text of the document begins. -/
def overlapping : List Input :=
  .begin (.edit (.name "a") "Ho") :: List.replicate 11 .tick ++ [.begin (.exportAs "a" "Hi" .compiled none)]

/-- Both processes run within the limit. -/
def lasting : List Input := .tick :: .tick :: .tick :: .jump :: List.replicate 16 .tick

theorem isPublic_lasting : ∀ i ∈ overlapping ++ .tick :: (lasting ++ []), i.IsPublic := by
  simp [overlapping, lasting, or_imp, forall_and, Input.IsPublic, Op.IsPublic.edit, Op.IsPublic.exportAs]

/-- The export begins aloof from the preview that runs, and hands over what the compiler answers for its own text. -/
theorem lasting_hands_over :
    (keenSample.run overlapping).Aloof ((keenSample.run overlapping).apply .tick) ∧
    (keenSample.run overlapping).Exports 3 [] "a" "Hi" .compiled none lasting
    (.value (.exported ⟨.compiled, "\x7b\x7d"⟩)) ∧
    ∃ xs rest ys r, lasting = xs ++ .tick :: (rest ++ ys) ∧
      ((keenSample.run overlapping).tick.run xs).current = some
      (3, [.exporting "a" .compiled none], .start (.compile "Hi")) ∧
      ((keenSample.run overlapping).tick.run xs).tick.ComesBack 3 [.exporting "a" .compiled none] rest r ∧
      ((keenSample.run overlapping).tick.run xs).Handover 3 keenSample.gallery.tag "Hi" .compiled none rest
        (.value (.exported ⟨.compiled, "\x7b\x7d"⟩)) := by
  have begun : (keenSample.run overlapping).current = some (3, [], .start (.exportAs "a" "Hi" .compiled none)) := rfl
  have handed : (keenSample.run overlapping).Exports 3 [] "a" "Hi" .compiled none lasting
      (.value (.exported ⟨.compiled, "\x7b\x7d"⟩)) :=
    ⟨begun, by decide +kernel, handed?_current (r := .ok ⟨.compiled, "\x7b\x7d"⟩) (by decide +kernel)⟩
  have overlaps : ∀ i ∈ overlapping, i.IsPublic := fun i mem => isPublic_lasting i (List.mem_append_left _ mem)
  obtain ⟨steps, -⟩ := exports_secluded isNew_keenSample overlaps
  obtain ⟨-, -, -, results⟩ := exports_secluded isNew_keenSample isPublic_lasting
  refine ⟨steps 3 (.inl (.inl ⟨_, _, _, _, _, begun⟩)) (.inl ⟨_, _, begun⟩), handed, ?_⟩
  exact ((results _ _ _ _ _ _ _ _ _ _ rfl handed).resolve_left (by simp)).2

end World
end InkPreview.Live
