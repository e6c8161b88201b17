import InkPreview.Proofs.Live.Retired
/-!
Enlisted tasks. The tasks that a slot knows work for edits of the slot, and the one that is registered to wait for
quiet does so, has still to begin that, or is on its way out. Main statement: `Enlisted.apply`.
-/
namespace InkPreview.Live

/-- The task waits for the quiet time of an edit, has still to begin that, or is on its way out. -/
inductive Post.IsQuiet : Post → Prop
  | waits {r : Request} {s : Signal} {wait : Wait} (ends : s.IsEnd) : IsQuiet ⟨[.quiet r], s, wait⟩
  | begins {r : Request} {wait : Wait} : IsQuiet ⟨[], .start (.background r), wait⟩
  | leaves {s : Signal} {wait : Wait} (out : wait = .ended ∨ s.IsEnd) : IsQuiet ⟨[], s, wait⟩

namespace World

/-- The tasks that a slot knows work for edits of it, and the registered one is at the quiet time or on its way
out. -/
structure Enlisted (ms : List Mark) (w : World) : Prop where
  mine : ∀ (x : SlotId) k u, w.records[x]? = some k → k.pending = some u ∨ u ∈ k.tasks → ∃ r, Mine ms u r ∧ r.slot = x
  quiet : ∀ (x : SlotId) k u, w.records[x]? = some k → k.pending = some u → ∃ q, w.post? u = some q ∧ q.IsQuiet

section
variable {ms : List Mark} {b : Bench} {w : World} {t u : TaskId} {x : SlotId} {fs : List Frame} {s : Signal}
  {l : Landing} {ks : List Slot} {q : Post} {i : Input}

/-- A task that is registered to wait for quiet begins no operation but that. -/
theorem quiet_still {op : Op} (quiet : Post.IsQuiet ⟨fs, .start op, .running⟩) : ∃ r, op = .background r := by
  cases quiet with
  | waits ends => exact ends.elim
  | begins => exact ⟨_, rfl⟩
  | leaves out =>
    rcases out with ended | ends
    · cases ended
    · exact ends.elim

/-- A step at the quiet time, or on the way out, leads to such a place again, unless the quiet time is over. -/
theorem Next.quiet (h : Next w t fs s l ks) (quiet : Post.IsQuiet ⟨fs, s, .running⟩) :
    (∃ r v, fs = [.quiet r] ∧ s = .value v) ∨
      (l.frames = [] ∨ ∃ r, l.frames = [.quiet r]) ∧ ∀ gs s', l = .go gs s' → s'.IsEnd := by
  have out {s : Signal} (ends : s.IsEnd) : ∀ gs s', Landing.go [] s = .go gs s' → s'.IsEnd := by
    rintro gs s' ⟨⟩
    exact ends
  cases quiet with
  | @waits r _ _ ends =>
    cases h with
    | turn aside => cases aside.plain ends
    | abandons | breaks => exact .inr ⟨.inl rfl, out trivial⟩
    | quieted => exact .inl ⟨r, _, rfl, rfl⟩
    | edits | misnamed | closes | rests => exact ends.elim
  | begins =>
    cases h with
    | turn aside =>
      rcases aside.1 with given | ⟨p, eq⟩
      · cases given
      · cases eq
    | rests h =>
      rcases h with rfl | ⟨n, rfl⟩
      · exact .inr ⟨.inr ⟨_, rfl⟩, nofun⟩
      · exact .inr ⟨.inr ⟨_, rfl⟩, nofun⟩
  | leaves out =>
    have ends : s.IsEnd := out.resolve_left nofun
    cases h.aside_turn (isAside_nil ends) with
    | begins => exact ends.elim
    | done => exact .inr ⟨.inl rfl, nofun⟩

/-- A task at the quiet time, or on its way out, stays at such a place, unless it takes the step that the quiet time
is over for. -/
theorem Flight.apply_quiet (h : Flight ms b w) (allowed : i.IsPublic) (found : w.post? u = some q) (quiet : q.IsQuiet) :
    (i = .tick ∧ ∃ r v, w.current = some (u, [.quiet r], .value v)) ∨ ∃ q', (w.apply i).post? u = some q' ∧
    q'.IsQuiet := by
  have next := h.apply allowed
  by_cases steps : w.Steps i u
  · obtain ⟨rfl, fs, s, running⟩ := steps
    obtain rfl := Option.some.inj ((h.post?_running running).symm.trans found)
    obtain ⟨x, l, deeds, landing, eq⟩ := h.sane.reaches running
    rcases landing.quiet quiet with ⟨r, v, rfl, rfl⟩ | ⟨frames, goes⟩
    · exact .inl ⟨rfl, r, v, running⟩
    · have there : u < x.tasks.length := Nat.lt_of_lt_of_le (h.there running) deeds.grown.length
      rw [show w.apply .tick = w.move u fs s from tick_running running, eq] at next ⊢
      obtain ⟨⟨fs', s', wait⟩, found', same, signal⟩ := land_at next there
      obtain rfl : fs' = l.frames := same
      have out : wait = .ended ∨ s'.IsEnd := by
        rcases signal with calm | ended | ⟨gs, s', landed, rfl⟩
        · exact .inr calm.ends
        · exact .inl ended
        · exact .inr (goes gs _ landed)
      refine .inr ⟨_, found', ?_⟩
      rcases frames with none | ⟨r, one⟩
      · exact none ▸ .leaves out
      · have awake : wait ≠ .ended := fun ended => by simpa [one] using (next.stage found').ended ended
        exact one ▸ .waits (out.resolve_left awake)
  · obtain ⟨q', found', rfl | ⟨-, frames, signal⟩⟩ := h.apply_post allowed found steps
    · exact .inr ⟨q', found', quiet⟩
    · refine .inr ⟨q', found', ?_⟩
      have ended := fun out => h.post_ended allowed found out found'
      obtain ⟨fs', s', wait'⟩ := q'
      have out : ∀ {s : Signal}, (s' = s ∨ s'.IsCalm) → s.IsEnd → s'.IsEnd := by
        rintro s (rfl | calm) ends
        · exact ends
        · exact calm.ends
      cases quiet with
      | waits ends =>
        obtain rfl : fs' = _ := frames
        exact .waits (out signal ends)
      | begins =>
        obtain rfl : fs' = _ := frames
        rcases signal with same | calm
        · obtain rfl : s' = _ := same
          exact .begins
        · exact .leaves (.inr calm.ends)
      | leaves away =>
        obtain rfl : fs' = _ := frames
        exact .leaves (away.imp ended (out signal))

/-- The task of an edit that has just begun is to begin its work. -/
theorem Flight.hired_post (h : Flight ms b w) {name text : String}
    (running : w.current = some (t, fs, .start (.edit (.name name) text)))
    (worker : (w.editBegun (.name name) text).worker = some u) :
    w.tick.post? u = some ⟨[], .start (.background ⟨(w.editBegun (.name name) text).slot, name,
      (w.editBegun (.name name) text).generation, text⟩), .turn⟩ := by
  have next : Flight (ms ++ w.marks .tick) b w.tick := h.apply (i := .tick) trivial
  have task : w.tick.tasks[u]? = _ :=
    (congrArg (fun v : World => v.tasks[u]?) (tick_running running)).trans (beginEdit_hired worker)
  refine (post?_other fun gs s now => ?_).trans (congrArg (Option.map Task.post) task)
  exact next.steady.midst.agrees.other task (by simp) u gs s now rfl

/-! ### Steps -/

/-- Once its quiet time is over a task is no longer registered to wait for it. -/
theorem Sane.quiet_over (h : w.Sane) {r : Request} {v : Value}
    (running : w.current = some (u, .quiet r :: fs, .value v))
    {k' : Slot} (found : w.tick.records[r.slot]? = some k') : k'.pending ≠ some u := by
  obtain ⟨x, l, -, next, eq⟩ := h.reaches running
  rw [tick_running running, eq, records_land] at found
  generalize x.records = ks at next found
  cases next with
  | turn aside => cases aside.plain trivial
  | quieted =>
    obtain ⟨k, -, rfl⟩ := modify_record found
    rw [if_pos rfl]
    split
    · nofun
    · assumption

/-- A document is edited under a name that is text if the edit has a task. -/
theorem worker_named {doc : DocId} {text : String} (worker : (w.editBegun doc text).worker = some u) :
    ∃ name, doc = .name name := by
  cases doc with
  | name name => exact ⟨name, rfl⟩
  | number | truth => cases worker

/-- Whatever happens, slots know none but the tasks of their edits. -/
theorem Enlisted.apply (h : Enlisted ms w) (flight : Flight ms b w) (allowed : i.IsPublic) :
    Enlisted (ms ++ w.marks i) (w.apply i) := by
  constructor
  case mine =>
    intro x k' u found listed
    have old : ∀ {k : Slot}, w.records[x]? = some k → k.pending = some u ∨ u ∈ k.tasks →
        ∃ r, Mine (ms ++ w.marks i) u r ∧ r.slot = x := by
      intro k at_x listed
      obtain ⟨r, mine, here⟩ := h.mine x k u at_x listed
      exact ⟨r, mine_more mine, here⟩
    cases flight.sane.apply_revised i found with
    | kept at_x later | settled _ _ _ at_x later => exact old at_x (listed.imp (later.pending u) (later.tasks u))
    | @edited t fs doc text tick running here _ _ pending tasks =>
      subst tick
      have hired : (w.editBegun doc text).worker = some u → ∃ r, Mine (ms ++ w.marks .tick) u r ∧ r.slot = x := by
        intro worker
        obtain ⟨name, rfl⟩ := worker_named worker
        refine ⟨⟨x, name, (w.editBegun (.name name) text).generation, text⟩, ⟨w.editBegun (.name name) text, ?_, worker,
          here, rfl, rfl, rfl⟩, rfl⟩
        simp [marks, mark?, running]
      rcases listed with waits | works
      · exact hired (pending u waits)
      · rcases tasks u works with before | new
        · rw [← listed_records, World.listed] at before
          cases at_x : w.records[x]? with
          | none => simp [at_x] at before
          | some k => exact old at_x (.inr (by simpa [at_x] using before))
        · exact hired new
  case quiet =>
    intro x k' u found pending
    have old : ∀ {k : Slot}, w.records[x]? = some k → k.Later k' → ∃ q, (w.apply i).post? u = some q ∧ q.IsQuiet := by
      intro k at_x later
      obtain ⟨q, post, quiet⟩ := h.quiet x k u at_x (later.pending u pending)
      refine (flight.apply_quiet allowed post quiet).resolve_left ?_
      rintro ⟨rfl, r, v, running⟩
      obtain rfl := Option.some.inj (post.symm.trans (flight.post?_running running))
      have mine : Mine ms u r := (flight.stage post).mine ⟨rfl, by simp⟩ (by simp)
      obtain ⟨r', mine', here⟩ := h.mine x k u at_x (.inl (later.pending u pending))
      obtain rfl := flight.booked.request_unique mine mine'
      exact flight.sane.quiet_over running (here ▸ found) pending
    cases flight.sane.apply_revised i found with
    | kept at_x later | settled _ _ _ at_x later => exact old at_x later
    | @edited t fs doc text tick running here _ _ waits =>
      subst tick
      have worker := waits u pending
      obtain ⟨name, rfl⟩ := worker_named worker
      exact ⟨_, flight.hired_post running worker, .begins⟩

theorem run_enlisted (new : w.IsNew) {inputs : List Input} (allowed : ∀ i ∈ inputs, i.IsPublic) :
    Enlisted (w.marksAlong inputs) (w.run inputs) := by
  have nobody : Enlisted [] w := ⟨fun x k u found => by simp [records, new.slots] at found, fun x k u found => by
    simp [records, new.slots] at found⟩
  have kept : ∀ (ms : List Mark) (v : World) (i : Input), Flight ms (w.bench none) v ∧ Enlisted ms v → i.IsPublic →
      Flight (ms ++ v.marks i) (w.bench none) (v.apply i) ∧ Enlisted (ms ++ v.marks i) (v.apply i) :=
    fun _ _ _ h given => ⟨h.1.apply given, h.2.apply h.1 given⟩
  exact (run_induct (I := fun ms v => Flight ms (w.bench none) v ∧ Enlisted ms v) kept ⟨new.flight, nobody⟩ inputs allowed).2

end
end World
end InkPreview.Live
