import InkPreview.Proofs.Live.Locking
/-!
Single flight. During one opening of a document one compile runs at a time, each for the newest edit
once its quiet time is over, at most one for each generation, and none for a text that needs no
compiler. Main statement: `compiles_disciplined`.
-/
namespace InkPreview.Live

/-! ### Edits and starts of one opening -/

/-- The edits that belong to a slot, oldest first. -/
def editsOf (ms : List Mark) (s : SlotId) : List Edit :=
  ms.filterMap fun m =>
    match m with
    | .edited e => if e.slot = s then some e else none
    | _ => none

/-- The compiles that have been started for one edit. -/
def startsOf (ms : List Mark) (s : SlotId) (g : Nat) : List Mark :=
  ms.filter fun m =>
    match m with
    | .started _ _ r _ => r.slot == s && r.generation == g
    | _ => false

section
variable {ms : List Mark} {p : Edit → Prop} [DecidablePred p]

/-- The edits that pass a test, oldest first. -/
def editsWhere (p : Edit → Prop) [DecidablePred p] (ms : List Mark) : List Edit :=
  ms.filterMap fun m =>
    match m with
    | .edited e => if p e then some e else none
    | _ => none

theorem mem_editsWhere {e : Edit} : e ∈ editsWhere p ms ↔ .edited e ∈ ms ∧ p e := by
  simp only [editsWhere, List.mem_filterMap]
  constructor
  · rintro ⟨m, mem, eq⟩
    cases m with
    | edited e' =>
      obtain ⟨passes, same⟩ := Option.ite_none_right_eq_some.1 eq
      cases same
      exact ⟨mem, passes⟩
    | started | ended | called => cases eq
  · rintro ⟨mem, passes⟩
    exact ⟨.edited e, mem, by simp [passes]⟩

theorem pairwise_editsWhere {R : Edit → Edit → Prop}
    (ordered : ms.Pairwise fun m m' => ∀ e e', m = .edited e → m' = .edited e' → R e e') :
    (editsWhere p ms).Pairwise R := by
  refine List.pairwise_filterMap.2 (ordered.imp fun {m m'} ordered e eq e' eq' => ?_)
  cases m with
  | edited e₁ =>
    cases m' with
    | edited e₂ =>
      obtain ⟨-, same⟩ := Option.ite_none_right_eq_some.1 eq
      obtain ⟨-, same'⟩ := Option.ite_none_right_eq_some.1 eq'
      cases same
      cases same'
      exact ordered _ _ rfl rfl
    | started | ended | called => cases eq'
  | started | ended | called => cases eq

end

section
variable {ms : List Mark} {s : SlotId}

theorem mem_editsOf {e : Edit} : e ∈ editsOf ms s ↔ .edited e ∈ ms ∧ e.slot = s :=
  mem_editsWhere (p := fun e => e.slot = s)

theorem mem_startsOf {g : Nat} {m : Mark} :
    m ∈ startsOf ms s g ↔ m ∈ ms ∧ ∃ time t r text, m = .started time t r text ∧ r.slot = s ∧
      r.generation = g := by
  simp only [startsOf, List.mem_filter, and_congr_right_iff]
  intro _
  constructor
  · intro counts
    split at counts
    · simp only [Bool.and_eq_true, beq_iff_eq] at counts
      exact ⟨_, _, _, _, rfl, counts⟩
    · cases counts
  · rintro ⟨time, t, r, text, rfl, at_s, of_g⟩
    simp [at_s, of_g]

@[simp] theorem editsOf_append (ns : List Mark) :
    editsOf (ms ++ ns) s = editsOf ms s ++ editsOf ns s := List.filterMap_append

@[simp] theorem startsOf_append (ns : List Mark) (g : Nat) :
    startsOf (ms ++ ns) s g = startsOf ms s g ++ startsOf ns s g := List.filter_append _ _

end

/-- Edits in the order of their generations. -/
def Rising (es : List Edit) : Prop := es.Pairwise fun e e' => e.generation < e'.generation

theorem Rising.eq {es : List Edit} (h : Rising es) {e e' : Edit} (mem : e ∈ es) (mem' : e' ∈ es)
    (same : e.generation = e'.generation) : e = e' := by
  induction es with
  | nil => cases mem
  | cons a rest ih =>
    obtain ⟨first, rising⟩ := List.pairwise_cons.1 h
    rcases List.mem_cons.1 mem with rfl | later
    · rcases List.mem_cons.1 mem' with rfl | later'
      · rfl
      · exact absurd same (Nat.ne_of_lt (first e' later'))
    · rcases List.mem_cons.1 mem' with rfl | later'
      · exact absurd same.symm (Nat.ne_of_lt (first e later))
      · exact ih rising later later'

/-- An edit that no other exceeds is the last. -/
theorem Rising.last {es : List Edit} (h : Rising es) {e : Edit} (mem : e ∈ es)
    (top : ∀ e' ∈ es, e'.generation ≤ e.generation) : es.getLast? = some e := by
  cases last : es.getLast? with
  | none =>
    rw [List.getLast?_eq_none_iff.1 last] at mem
    cases mem
  | some e' =>
    obtain ⟨before, rfl⟩ := List.getLast?_eq_some_iff.1 last
    refine congrArg some (h.eq (List.mem_of_getLast? last) mem ?_)
    have le := top e' (List.mem_of_getLast? last)
    rcases List.mem_append.1 mem with earlier | here
    · have lt := (List.pairwise_append.1 h).2.2 e earlier e' (by simp)
      omega
    · rw [List.mem_singleton.1 here]

namespace World

/-! ### What is booked -/

/-- The edits of a slot have rising generations up to its own, every task works for one edit whose
text needs the compiler, and no edit is compiled twice. -/
structure Booked (ms : List Mark) (w : World) : Prop where
  known : Known ms w
  numbered : ∀ e, .edited e ∈ ms → ∃ a, w.seats[e.slot]? = some a ∧ e.generation ≤ a.generation
  rising : ∀ s, Rising (editsOf ms s)
  single : ∀ e e' t, .edited e ∈ ms → .edited e' ∈ ms → e.worker = some t → e'.worker = some t → e = e'
  needed : ∀ e t, .edited e ∈ ms → e.worker = some t → needsCompile e.text = true
  begun : ∀ time t r text, .started time t r text ∈ ms → Mine ms t r
  once : ∀ s g, (startsOf ms s g).length ≤ 1

section
variable {ms : List Mark} {b : Bench} {w v : World}

theorem Booked.mono (h : Booked ms w) (ages : Ages w.seats v.seats) (clock : w.clock ≤ v.clock)
    (tasks : w.tasks.length ≤ v.tasks.length) : Booked ms v where
  known := ⟨fun e he => Nat.le_trans (h.known.past e he) clock,
    fun e t he worker => Nat.lt_of_lt_of_le (h.known.workers e t he worker) tasks,
    fun t started => Nat.lt_of_lt_of_le (h.known.starters t started) tasks⟩
  numbered e he := by
    obtain ⟨a, at_slot, le⟩ := h.numbered e he
    obtain ⟨a', at_slot', -, le', -⟩ := ages e.slot a at_slot
    exact ⟨a', at_slot', Nat.le_trans le le'⟩
  rising := h.rising
  single := h.single
  needed := h.needed
  begun := h.begun
  once := h.once

theorem mine_more {ms ns : List Mark} {t : TaskId} {r : Request} (h : Mine ms t r) : Mine (ms ++ ns) t r := by
  obtain ⟨e, mem, rest⟩ := h
  exact ⟨e, List.mem_append_left _ mem, rest⟩

/-- A task works for one request. -/
theorem Booked.request_unique (h : Booked ms w) {t : TaskId} {r q : Request} (mine : Mine ms t r)
    (mine' : Mine ms t q) :
    r = q := by
  obtain ⟨e, he, worker, at_r, of_r, number, text⟩ := mine
  obtain ⟨e', he', worker', at_q, of_q, number', text'⟩ := mine'
  obtain rfl := h.single e e' t he he' worker worker'
  obtain ⟨slot, doc, g, s⟩ := r
  obtain ⟨slot', doc', g', s'⟩ := q
  cases at_r.symm.trans at_q
  cases of_r.symm.trans of_q
  cases number.symm.trans number'
  cases text.symm.trans text'
  rfl

/-- The edit that a task works for. -/
theorem Booked.eq_of_mine (h : Booked ms w) {t u : TaskId} {r q : Request} (mine : Mine ms t r)
    (mine' : Mine ms u q) (slot : r.slot = q.slot) (generation : r.generation = q.generation) :
    t = u := by
  obtain ⟨e, he, worker, at_r, -, of_r, -⟩ := mine
  obtain ⟨e', he', worker', at_q, -, of_q, -⟩ := mine'
  have same : e = e' := (h.rising r.slot).eq (mem_editsOf.2 ⟨he, at_r⟩)
    (mem_editsOf.2 ⟨he', at_q.trans slot.symm⟩) (of_r.trans (generation.trans of_q.symm))
  rw [same, worker'] at worker
  exact (Option.some.inj worker).symm

theorem editBegun_raises (w : World) (doc : DocId) (text : String) {a : Seat}
    (at_slot : w.seats[(w.editBegun doc text).slot]? = some a) :
    a.generation < (w.editBegun doc text).generation := by
  cases registered : w.slotOf? doc with
  | some s =>
    simp only [editBegun, ensureSlot_of_some registered, seats_getElem?, Option.map_eq_some_iff]
      at at_slot ⊢
    obtain ⟨k, found, rfl⟩ := at_slot
    simp [generationOf, found]
  | none =>
    simp [editBegun, ensureSlot_of_none registered] at at_slot

/-- What an edit books. -/
theorem Booked.edited (h : Booked ms w) (sane : w.Sane) {t : TaskId} {fs : List Frame} {doc : DocId}
    {text : String} (booked : Booked ms (w.beginEdit t fs doc text))
    (clock : w.clock ≤ (w.beginEdit t fs doc text).clock) :
    Booked (ms ++ [.edited (w.editBegun doc text)]) (w.beginEdit t fs doc text) := by
  obtain ⟨-, -, a, at_slot, -, -, same⟩ := bumped_seats sane.distinct doc text
  rw [← seats_beginEdit t fs] at at_slot
  let e := w.editBegun doc text
  have cases_on : ∀ {e' : Edit}, .edited e' ∈ ms ++ [.edited e] → .edited e' ∈ ms ∨ e' = e := by
    intro e' mem
    rcases List.mem_append.1 mem with old | new
    · exact .inl old
    · exact .inr (by simpa using new)
  have starts : ∀ {time t r text}, .started time t r text ∈ ms ++ [.edited e] →
      .started time t r text ∈ ms := by
    intro time t r text mem
    simpa using mem
  have fresh : ∀ e' t, .edited e' ∈ ms → e'.worker = some t → e.worker ≠ some t := by
    intro e' u he' worker worker'
    have lt := h.known.workers e' u he' worker
    simp only [e, editBegun, workerFor] at worker'
    split at worker'
    · split at worker'
      · exact absurd (Option.some.inj worker') (Nat.ne_of_gt lt)
      · cases worker'
    · cases worker'
  refine {
    known := ⟨?past, ?workers, ?starters⟩, numbered := ?numbered, rising := ?rising, single := ?single,
    needed := ?needed, begun := ?begun, once := ?once }
  case past =>
    intro e' he'
    rcases cases_on he' with old | rfl
    · exact booked.known.past e' old
    · exact clock
  case workers =>
    intro e' u he' worker
    rcases cases_on he' with old | rfl
    · exact booked.known.workers e' u old worker
    · exact (worker_there t fs doc text worker).1
  case starters =>
    rintro u ⟨time, r, x, started⟩
    exact booked.known.starters u ⟨time, r, x, starts started⟩
  case numbered =>
    intro e' he'
    rcases cases_on he' with old | rfl
    · exact booked.numbered e' old
    · exact ⟨a, at_slot, Nat.le_of_eq same.symm⟩
  case rising =>
    intro s
    have one : Rising (editsOf [.edited e] s) := by
      by_cases at_s : e.slot = s
      · simp [Rising, editsOf, at_s]
      · simp [Rising, editsOf, at_s]
    rw [editsOf_append]
    refine List.pairwise_append.2 ⟨h.rising s, one, ?_⟩
    intro e' mem e'' new
    obtain ⟨new, at_s⟩ := mem_editsOf.1 new
    obtain ⟨old, at_s'⟩ := mem_editsOf.1 mem
    obtain rfl : e'' = e := by simpa using new
    obtain ⟨c, at_c, le⟩ := h.numbered e' old
    rw [at_s', ← at_s] at at_c
    exact Nat.lt_of_le_of_lt le (editBegun_raises w doc text at_c)
  case single =>
    intro e' e'' u he' he'' worker worker'
    rcases cases_on he' with old | rfl
    · rcases cases_on he'' with old' | rfl
      · exact h.single e' e'' u old old' worker worker'
      · exact absurd worker' (fresh e' u old worker)
    · rcases cases_on he'' with old' | rfl
      · exact absurd worker (fresh e'' u old' worker')
      · rfl
  case needed =>
    intro e' u he' worker
    rcases cases_on he' with old | rfl
    · exact h.needed e' u old worker
    · exact (worker_there t fs doc text worker).2
  case begun =>
    intro time u r x started
    obtain ⟨e', he', rest⟩ := h.begun time u r x (starts started)
    exact ⟨e', List.mem_append_left _ he', rest⟩
  case once =>
    intro s g
    simpa [startsOf] using h.once s g

/-- A mark of no edit books nothing new, except that a compile has been started for its edit. -/
theorem Booked.marked (h : Booked ms w) {m : Mark} (noEdit : ∀ e, m ≠ .edited e)
    (starts : ∀ time t r text, m = .started time t r text →
      t < w.tasks.length ∧ Mine ms t r ∧ ¬ HasStarted ms t) : Booked (ms ++ [m]) w := by
  have edits : ∀ {e : Edit}, .edited e ∈ ms ++ [m] → .edited e ∈ ms := by
    intro e mem
    rcases List.mem_append.1 mem with old | new
    · exact old
    · exact absurd (List.mem_singleton.1 new).symm (noEdit e)
  refine {
    known := ⟨fun e he => h.known.past e (edits he), fun e t he => h.known.workers e t (edits he), ?starters⟩
    numbered := fun e he => h.numbered e (edits he)
    rising := ?rising
    single := fun e e' t he he' => h.single e e' t (edits he) (edits he')
    needed := fun e t he => h.needed e t (edits he)
    begun := ?begun
    once := ?once }
  case starters =>
    rintro t ⟨time, r, text, started⟩
    rcases List.mem_append.1 started with old | new
    · exact h.known.starters t ⟨time, r, text, old⟩
    · exact (starts time t r text (List.mem_singleton.1 new).symm).1
  case rising =>
    intro s
    have none : editsOf [m] s = [] := by
      cases m with
      | edited e => exact absurd rfl (noEdit e)
      | _ => rfl
    rw [editsOf_append, none, List.append_nil]
    exact h.rising s
  case begun =>
    intro time t r text started
    rcases List.mem_append.1 started with old | new
    · exact mine_more (h.begun time t r text old)
    · exact mine_more (starts time t r text (List.mem_singleton.1 new).symm).2.1
  case once =>
    intro s g
    rw [startsOf_append]
    cases here : startsOf [m] s g with
    | nil => simpa using h.once s g
    | cons m' rest =>
      obtain ⟨mem, time, t, r, text, rfl, at_s, of_g⟩ := mem_startsOf.1 (here ▸ List.mem_cons_self)
      obtain ⟨-, mine, new⟩ := starts time t r text (List.mem_singleton.1 mem).symm
      have nothing : startsOf ms s g = [] := by
        refine List.eq_nil_iff_forall_not_mem.2 fun x hx => ?_
        obtain ⟨old, time', u, q, text', rfl, at_s', of_g'⟩ := mem_startsOf.1 hx
        have same := h.eq_of_mine mine (h.begun time' u q text' old) (at_s.trans at_s'.symm)
          (of_g.trans of_g'.symm)
        exact new ⟨time', q, text', same ▸ old⟩
      have short : (startsOf [m] s g).length ≤ 1 := List.length_filter_le _ _
      rw [here] at short
      simpa [nothing] using short

/-! ### Flights -/

structure Flight (ms : List Mark) (b : Bench) (w : World) : Prop where
  sane : w.Sane
  steady : Steady ms b w
  booked : Booked ms w

/-- A compile that is about to begin is the first for its edit, which is the newest and has rested. -/
theorem Flight.at_start (h : Flight ms b w) {time : Nat} {t : TaskId} {r : Request} {text : String}
    (marked : w.mark? = some (.started time t r text)) :
    time = w.clock ∧ text = r.text ∧ t < w.tasks.length ∧ Mine ms t r ∧ ¬ HasStarted ms t ∧
      Rested ms t w.setup.quiet w.clock ∧ w.isCurrent r.slot r.generation = true ∧
      Serves w.seats r.slot r.doc := by
  obtain ⟨rfl, fs, running⟩ := mark?_started marked
  have midst := h.steady.midst
  rw [running] at midst
  obtain ⟨rfl, mine, ⟨asked, new, rested⟩ | compiles⟩ :=
    (midst.orderly.stage t _ (running_post midst.runs)).at_holding
  · obtain rfl : text = r.text := by simpa using asked
    obtain ⟨k, found, -⟩ := midst.runs
    exact ⟨rfl, rfl, (List.getElem?_eq_some_iff.1 found).1, mine, new, rested,
      h.steady.eager t r [] r.text running, (h.sane.running t _ _ running).1.top⟩
  · exact absurd rfl (compiles.onward text)

theorem Flight.apply (h : Flight ms b w) {i : Input} (allowed : i.IsPublic) :
    Flight (ms ++ w.marks i) b (w.apply i) := by
  obtain ⟨sane, ages⟩ := h.sane.apply allowed
  have here : Steady ms (w.bench w.current) w :=
    ⟨⟨h.steady.midst.agrees, h.steady.midst.orderly, .refl _⟩, h.steady.eager⟩
  have next := h.sane.apply_steady here h.booked.known allowed
  have clock : w.clock ≤ (w.apply i).clock := next.midst.since.clock
  have tasks : w.tasks.length ≤ (w.apply i).tasks.length := by
    simpa [bench_length] using next.midst.since.posts
  refine ⟨sane, ⟨⟨next.midst.agrees, next.midst.orderly, h.steady.midst.since.trans next.midst.since⟩,
    next.eager⟩, ?_⟩
  have later := h.booked.mono ages clock tasks
  by_cases tick : i = .tick
  · subst tick
    cases marked : w.mark? with
    | none => simpa [marks, marked] using later
    | some m =>
      simp only [marks, marked, Option.toList_some]
      by_cases edit : ∃ e, m = .edited e
      · obtain ⟨e, rfl⟩ := edit
        obtain ⟨t, fs, doc, text, running, rfl⟩ := mark?_edited marked
        have step : w.apply .tick = w.beginEdit t fs doc text := tick_running running
        rw [step] at later clock ⊢
        exact h.booked.edited h.sane later clock
      · refine later.marked (fun e eq => edit ⟨e, eq⟩) ?_
        rintro time t r text rfl
        obtain ⟨-, -, lt, mine, new, -⟩ := h.at_start marked
        exact ⟨Nat.lt_of_lt_of_le lt tasks, mine, new⟩
  · rw [marks_silent tick, List.append_nil]
    exact later

theorem IsNew.flight (new : w.IsNew) : Flight [] (w.bench none) w where
  sane := new.sane
  steady := by
    have none : w.bench none = ⟨[], [], [], w.clock, w.setup.quiet⟩ := by
      simp [bench, new.slots, new.tasks, new.alarms]
    have agrees : w.Agrees .none := fun t => by simp [Runs, new.tasks]
    exact Midst.idle ⟨agrees, none ▸ orderly_nil _ _ _, .refl _⟩ new.current
  booked := by
    have nothing : ∀ t, ¬ HasStarted [] t := by
      rintro t ⟨_, _, _, mem⟩
      cases mem
    exact ⟨⟨by simp, by simp, fun t started => absurd started (nothing t)⟩, by simp,
      fun s => List.Pairwise.nil, by simp, by simp, by simp, fun s g => Nat.zero_le _⟩

theorem run_flight (new : w.IsNew) {inputs : List Input} (allowed : ∀ i ∈ inputs, i.IsPublic) :
    Flight (w.marksAlong inputs) (w.bench none) (w.run inputs) := by
  have kept : ∀ (ms : List Mark) (v : World) (i : Input), Flight ms (w.bench none) v → i.IsPublic →
      Flight (ms ++ v.marks i) (w.bench none) (v.apply i) := fun _ _ _ h => h.apply
  exact run_induct kept new.flight inputs allowed

/-- The frames of a task, also in the midst of its step. -/
def stackOf (w : World) (t : TaskId) : List Frame :=
  match w.current with
  | some (u, fs, _) => if u = t then fs else (w.tasks[t]?.map (·.frames)).getD []
  | none => (w.tasks[t]?.map (·.frames)).getD []

/-- The frames of the running task. -/
theorem stackOf_running {t : TaskId} {fs : List Frame} {s : Signal} (running : w.current = some (t, fs, s)) :
    w.stackOf t = fs := by
  simp [stackOf, running]

/-- The task compiles the text of the request under the lock of its slot, or is about to. -/
def InFlight (w : World) (t : TaskId) (r : Request) : Prop := .holding r ∈ w.stackOf t

theorem Flight.post (h : Flight ms b w) {t : TaskId} {f : Frame} (mem : f ∈ w.stackOf t) :
    ∃ p, (w.bench w.current).posts[t]? = some p ∧ f ∈ p.frames := by
  have idle : ∀ {now : Option (TaskId × List Frame × Signal)},
      (∀ u fs s, now = some (u, fs, s) → u ≠ t) → f ∈ (w.tasks[t]?.map (·.frames)).getD [] →
      ∃ p, (w.bench now).posts[t]? = some p ∧ f ∈ p.frames := by
    intro now other mem
    rw [other_post other]
    cases found : w.tasks[t]? with
    | none => simp [found] at mem
    | some k => exact ⟨k.post, rfl, by simpa [found, Task.post] using mem⟩
  have agrees := h.steady.midst.agrees
  unfold stackOf at mem
  cases current : w.current with
  | none =>
    rw [current] at mem
    exact idle (by simp) mem
  | some x =>
    obtain ⟨u, fs, s⟩ := x
    rw [current] at agrees mem
    by_cases here : u = t
    · subst here
      exact ⟨_, running_post agrees.runs, by simpa using mem⟩
    · refine idle ?_ (by simpa [here] using mem)
      rintro u' fs' s' eq rfl
      exact here (Prod.mk.inj (Option.some.inj eq)).1

end
end World

/-- A held lock shows at the bottom of the stack, and there alone. -/
theorem Stage.holds {ms : List Mark} {b : Bench} {t : TaskId} {p : Post} (h : Stage ms b t p)
    {r : Request} (mem : .holding r ∈ p.frames) :
    gripOf p.frames = .holds r.slot ∧ p.frames.getLast? = some (.holding r) ∧
      (p = ⟨[.holding r], .start (.compile r.text), .running⟩ ∨
        ∃ time, .started time t r r.text ∈ ms) := by
  cases h with
  | plain free => cases free _ mem
  | asked =>
    obtain ⟨rfl⟩ := List.mem_singleton.1 mem
    exact ⟨rfl, rfl, .inl rfl⟩
  | holding mine compiles _ _ begun =>
    rcases List.mem_append.1 mem with above | here
    · cases compiles.plain _ above
    · obtain ⟨rfl⟩ := List.mem_singleton.1 here
      exact ⟨gripOf_holding _ r, by simp, .inr begun⟩
  | fresh | finished => cases mem
  | quiet | rested | dropped | queueing | called | leaving => simp at mem

theorem needsCompile_iff {text : String} : needsCompile text = true ↔
    ∃ c rest, Text.trim text.toList = c :: rest ∧ c ≠ Settings.storyMark := by
  unfold needsCompile classify
  cases Text.trim text.toList with
  | nil => simp
  | cons c rest =>
    by_cases mark : c = Settings.storyMark
    · simp [mark]
    · simp [mark]

namespace World

/-- After every run: of the tasks of one slot at most one compiles, for one request, and whatever
compiles has been marked as started, unless it starts in the next step. Whenever a compile starts,
its slot is the one registered under the document; its text is that of the last edit of the slot,
which has rested for the quiet time; and the text, trimmed, neither is empty nor begins like a
compiled story. No edit's compile is started twice. -/
theorem compiles_disciplined {start : World} (new : start.IsNew) {before : List Input}
    (allowed : ∀ i ∈ before, i.IsPublic) :
    (∀ t u r q, (start.run before).InFlight t r → (start.run before).InFlight u q →
      r.slot = q.slot → t = u ∧ r = q) ∧
    (∀ t r, (start.run before).InFlight t r →
      (∃ time, .started time t r r.text ∈ start.marksAlong before) ∨
        (start.run before).mark? = some (.started (start.run before).clock t r r.text)) ∧
    (∀ time t r text, (start.run before).mark? = some (.started time t r text) →
      time = (start.run before).clock ∧ (start.run before).slotOf? (.name r.doc) = some r.slot ∧
      (∃ e, (editsOf (start.marksAlong before) r.slot).getLast? = some e ∧ e.doc = .name r.doc ∧
        e.generation = r.generation ∧ e.text = text ∧ e.time + start.setup.quiet ≤ time) ∧
      ∃ c rest, Text.trim text.toList = c :: rest ∧ c ≠ Settings.storyMark) ∧
    ∀ s g, (startsOf (start.marksAlong before) s g).length ≤ 1 := by
  have flight := run_flight new allowed
  generalize start.run before = w at *
  generalize start.marksAlong before = ms at *
  have orderly := flight.steady.midst.orderly
  refine ⟨?_, ?_, ?_, flight.booked.once⟩
  · intro t u r q flies flies' same
    obtain ⟨p, found, mem⟩ := flight.post flies
    obtain ⟨p', found', mem'⟩ := flight.post flies'
    obtain ⟨grip, last, -⟩ := (orderly.stage t p found).holds mem
    obtain ⟨grip', last', -⟩ := (orderly.stage u p' found').holds mem'
    obtain rfl := orderly.alone t u p p' r.slot found found' grip (same ▸ grip')
    obtain rfl := Option.some.inj (found.symm.trans found')
    exact ⟨rfl, by simpa [last] using last'⟩
  · intro t r flies
    obtain ⟨p, found, mem⟩ := flight.post flies
    obtain ⟨-, -, rfl | started⟩ := (orderly.stage t p found).holds mem
    · have running := flight.steady.midst.now_of_running found rfl
      exact .inr (by simp [mark?, running])
    · exact .inl started
  · intro time t r text marked
    obtain ⟨rfl, rfl, -, mine, -, rested, current, served⟩ := flight.at_start marked
    obtain ⟨e, he, worker, at_slot, doc, of_r, same⟩ := mine
    obtain ⟨a, registered, isOpen, newest⟩ := isCurrent_iff.1 current
    obtain ⟨a', registered', isDoc⟩ := served
    obtain rfl : a' = a := Option.some.inj (registered'.symm.trans registered)
    have quiet : w.setup.quiet = start.setup.quiet := flight.steady.midst.since.quiet
    refine ⟨rfl, slotOf?_eq flight.sane.distinct registered isOpen (by simp [isDoc]),
      ⟨e, ?_, doc, of_r, same, quiet ▸ rested e he worker⟩, ?_⟩
    · refine (flight.booked.rising r.slot).last (mem_editsOf.2 ⟨he, at_slot⟩) fun e' mem => ?_
      obtain ⟨he', here⟩ := mem_editsOf.1 mem
      obtain ⟨c, at_e', le⟩ := flight.booked.numbered e' he'
      rw [here, registered] at at_e'
      obtain rfl := Option.some.inj at_e'
      rw [of_r, ← newest]
      exact le
    · rw [← same]
      exact needsCompile_iff.1 (flight.booked.needed e t he worker)

/-- The first compile in a run of the small editor. -/
theorem first_compile_rests :
    ∃ e, (editsOf (sample.marksAlong (editing "Hi" 9)) 0).getLast? = some e ∧ e.generation = 1 ∧
      e.text = "Hi" := by
  obtain ⟨-, -, starts, -⟩ := compiles_disciplined isNew_sample (isPublic_editing "Hi" 9)
  obtain ⟨-, -, ⟨e, last, -, generation, text, -⟩, -⟩ := starts 0 1 ⟨0, "a", 1, "Hi"⟩ "Hi" rfl
  exact ⟨e, last, generation, text⟩

end World
end InkPreview.Live
