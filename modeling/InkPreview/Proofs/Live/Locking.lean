import InkPreview.Proofs.Live.Course
/-!
Steps under locks. Each of a request's own steps, an edit, a closing and whatever else may happen
keep the bench in order. Main statement: `Sane.apply_steady`.
-/
namespace InkPreview.Live
namespace World

/-- What has been marked so far lies in the past, and was done by tasks that are there. -/
structure Known (ms : List Mark) (w : World) : Prop where
  past : ∀ e, .edited e ∈ ms → e.time ≤ w.clock
  workers : ∀ e t, .edited e ∈ ms → e.worker = some t → t < w.tasks.length
  starters : ∀ t, HasStarted ms t → t < w.tasks.length

namespace Midst
variable {ms ms' : List Mark} {b : Bench} {w v : World} {now : Option (TaskId × List Frame × Signal)}
  {t : TaskId} {fs fs' : List Frame} {s s' : Signal} {u : SlotId} {r : Request}

/-- Marks of tasks that are not there yet change nothing. -/
theorem marks (h : Midst ms b w now) (more : ∀ m ∈ ms, m ∈ ms')
    (started : ∀ t, t < w.tasks.length → HasStarted ms' t → HasStarted ms t)
    (edits : ∀ t e, t < w.tasks.length → .edited e ∈ ms' → e.worker = some t → .edited e ∈ ms) :
    Midst ms' b w now := by
  have here : ∀ {t : TaskId} {p : Post}, (w.bench now).posts[t]? = some p → t < w.tasks.length :=
    fun found => bench_length (w := w) ▸ (List.getElem?_eq_some_iff.1 found).1
  exact ⟨h.agrees, h.orderly.marks more (fun t p found => started t (here found))
    (fun t p e found => edits t e (here found)), h.since⟩

/-! ### Locks -/

theorem lock_found {k : Slot} (found : w.slots[u]? = some k) :
    (w.bench now).locks[u]? = some k.lock := by
  simp [bench, found]

/-- The running task changes a lock and has something else to do. -/
theorem relocked (h : Midst ms b w (some (t, fs, s))) {f : Slot → Slot} {g : Lock → Lock}
    (lock : ∀ k, (f k).lock = g k.lock)
    (orderly : Orderly ms (((w.bench (some (t, fs, s))).setLock u g).put t ⟨fs', s', .running⟩)) :
    Midst ms b (w.modifySlot u f) (some (t, fs', s')) := by
  have bench_eq : (w.modifySlot u f).bench (some (t, fs', s')) =
      ((w.bench (some (t, fs, s))).setLock u g).put t ⟨fs', s', .running⟩ := by
    rw [bench_put (w.modifySlot u f) t fs fs' s s', bench_modifySlot u lock]
  refine ⟨h.agrees.again fs' s', bench_eq ▸ orderly, bench_eq ▸ ?_⟩
  exact ⟨h.since.quiet, h.since.clock, by simpa [Bench.put, Bench.setLock] using h.since.posts⟩

theorem grab (h : Midst ms b w (some (t, fs, s))) (free : gripOf fs = .free) {k : Slot}
    (found : w.slots[r.slot]? = some k) (nobody : k.lock.isOpen = true) (mine : Mine ms t r)
    (new : ¬ HasStarted ms t) (rested : Rested ms t w.setup.quiet w.clock) :
    Midst ms b (w.setHeld r.slot true) (some (t, [.holding r], .start (.compile r.text))) :=
  h.relocked (fun _ => rfl) (h.orderly.grab (running_post h.runs) rfl free (lock_found found) nobody
    mine new rested)

theorem take (h : Midst ms b w (some (t, fs, s))) (grip : gripOf fs = .queued r.slot) {k : Slot}
    (found : w.slots[r.slot]? = some k) (called : (t, .called) ∈ k.lock.queue) (mine : Mine ms t r)
    (new : ¬ HasStarted ms t) (rested : Rested ms t w.setup.quiet w.clock) :
    Midst ms b ((w.leaveQueue r.slot t).setHeld r.slot true)
      (some (t, [.holding r], .start (.compile r.text))) := by
  have both : (w.leaveQueue r.slot t).setHeld r.slot true =
      w.modifySlot r.slot fun k => { k with lock := { k.lock.leave t with held := true } } := by
    simp only [leaveQueue, setHeld, modifySlot, List.modify_modify_eq]
    rfl
  rw [both]
  exact h.relocked (fun _ => rfl) (h.orderly.take (running_post h.runs) rfl grip (lock_found found)
    called mine new rested)

theorem leave (h : Midst ms b w (some (t, fs, s))) (grip : gripOf fs = .queued u) {k : Slot}
    (found : w.slots[u]? = some k) (s' : Signal) (plain : Plain fs') (ends : s'.IsEnd) :
    Midst ms b (w.leaveQueue u t) (some (t, fs', s')) :=
  h.relocked (fun _ => rfl) (h.orderly.leave (running_post h.runs) rfl grip (lock_found found) plain
    ends)

theorem callNext (h : Midst ms b w now) (free : ∀ k, w.slots[u]? = some k → k.lock.held = false) :
    Midst ms b (w.callNext u) now := by
  unfold World.callNext
  split
  · rename_i t next
    obtain ⟨k, found, next⟩ := Option.bind_eq_some_iff.1 next
    have head : (t, .waiting) ∈ k.lock.queue := List.mem_of_head? (Lock.head_of_next next)
    obtain ⟨p, post, -, waits⟩ := h.orderly.queued u _ t .waiting (lock_found found) head
    exact h.relocked_woken (fun _ => rfl) post (by simp [waits rfl])
      (h.orderly.call (lock_found found) (free k found) next)
  · exact h

theorem release (h : Midst ms b w (some (t, fs, s))) (grip : gripOf fs = .holds u) (s' : Signal)
    (plain : Plain fs') (ends : s'.IsEnd) : Midst ms b (w.release u) (some (t, fs', s')) := by
  have given : Midst ms b (w.setHeld u false) (some (t, fs', s')) :=
    h.relocked (fun _ => rfl) (h.orderly.giveBack (running_post h.runs) rfl grip plain ends)
  refine given.callNext fun k found => ?_
  simp only [setHeld, modifySlot, List.getElem?_modify, Option.map_eq_map, Option.map_eq_some_iff] at found
  obtain ⟨k', -, rfl⟩ := found
  simp

/-- The running task queues up for a lock. -/
theorem queue (h : Midst ms b w (some (t, fs, s))) (free : gripOf fs = .free) {k : Slot}
    (found : w.slots[r.slot]? = some k) (mine : Mine ms t r) (new : ¬ HasStarted ms t)
    (rested : Rested ms t w.setup.quiet w.clock) {f : Slot → Slot}
    (joins : ∀ k, (f k).lock = { k.lock with queue := k.lock.queue ++ [(t, .waiting)] }) :
    Midst ms b ((w.modifySlot r.slot f).park t [.queueing r] (.lock r.slot)) none := by
  let v := w.modifySlot r.slot f
  let g (l : Lock) : Lock := { l with queue := l.queue ++ [(t, .waiting)] }
  have orderly := h.orderly.join (running_post h.runs) rfl free (lock_found found) mine new rested
  have bench_eq : (v.yield t [.queueing r] (.lock r.slot)).bench none = _ :=
    (bench_yield (w := v) h.runs fs [.queueing r] s (.lock r.slot)).trans
      (congrArg (Bench.put · t _) (bench_modifySlot (g := g) r.slot joins))
  have stopped : Midst ms b (v.yield t [.queueing r] (.lock r.slot)) none := by
    refine ⟨h.agrees.stop (w := v) fun _ => nofun, bench_eq ▸ orderly, bench_eq ▸ ?_⟩
    exact ⟨h.since.quiet, h.since.clock, by simpa [Bench.put, Bench.setLock] using h.since.posts⟩
  rcases park_cases v t [.queueing r] (.lock r.slot) with eq | ⟨g, group, -⟩ | ⟨-, -, eq⟩
  · exact eq ▸ stopped
  · cases group
  · have cleared : Midst ms b ((v.yield t [.queueing r] (.lock r.slot)).clearCancel t) none :=
      stopped.sameTask t fun _ => rfl
    exact eq ▸ cleared.nudges (cancel_nudges _ t)

/-! ### A request's own steps -/

/-- The running task goes on without a request. -/
theorem goOn (h : Midst ms b w (some (t, fs, s))) (free : gripOf fs = .free) (plain : Plain fs')
    (ends : s'.IsEnd) : Steady ms b (w.go t fs' s') := by
  have ready := Landing.ready_plain (l := .go fs' s') plain ends.given trivial ms
    (w.bench (some (t, fs, s))) t
  exact h.land (free ▸ ready)

theorem deliver (h : Midst ms b w (some (t, fs, s))) (free : gripOf fs = .free) (plain : Plain fs')
    (u : SlotId) (doc : String) (g : Nat) (m : Mode) :
    Steady ms b (w.deliver t fs' u doc g m) := by
  cases current : w.isCurrent u g with
  | false =>
    rw [deliver_stale t fs' doc m current]
    exact (h.alike (.count w _)).goOn free plain trivial
  | true =>
    obtain ⟨v, alike, eq⟩ := deliver_eq t fs' doc m current
    rw [eq]
    have shown : Midst ms b { w with gallery := (w.gallery.render doc m).2.2 } _ :=
      ⟨h.agrees, h.orderly, h.since⟩
    have kept : Midst ms b (v.modifySlot u fun k => { k with lastUpdate := some (w.drawn u doc g m) }) _ :=
      (shown.alike alike).sameSlot u fun _ => rfl
    exact kept.goOn free (all_cons rfl plain) trivial

theorem settle (h : Midst ms b w (some (t, fs, s))) (free : gripOf fs = .free) (plain : Plain fs')
    (r : Request) (o : Outcome) :
    Steady ms b (w.settle t fs' r o) := by
  unfold World.settle
  split
  · exact (h.alike (.trans (.count w _) (.note _ _))).goOn free plain trivial
  · split
    · exact h.deliver free plain r.slot r.doc r.generation _
    · exact (h.alike (.note w _)).deliver free plain r.slot r.doc r.generation _

/-- With the lock in hand a request goes on to its compile, or gives the lock back. -/
theorem locked (h : Midst ms b w (some (t, [.holding r], .start (.compile r.text)))) :
    Steady ms b (w.locked t [] r) := by
  unfold World.locked
  split
  · have released := (h.alike (.note w (.superseded r.doc r.generation))).release
      (gripOf_holding [] r) (.value .unit) plain_nil trivial
    exact released.goOn rfl plain_nil trivial
  · rename_i current
    refine ⟨h.go rfl (h.orderly.stage t _ (running_post h.runs)), ?_⟩
    intro u q rest text running
    obtain ⟨-, ⟨rfl, -⟩, -⟩ : _ ∧ (r = q ∧ _) ∧ _ := by simpa [World.call, World.go] using running
    have same : (w.call t [.holding r] (.compile r.text)).seats = w.seats := rfl
    rw [isCurrent_seats same]
    simpa using current

theorem slot_of_current {g : Nat} (current : w.isCurrent u g = true) : ∃ k, w.slots[u]? = some k := by
  unfold isCurrent at current
  split at current
  · rename_i k found
    exact ⟨k, found⟩
  · cases current

theorem quietEnded (h : Midst ms b w (some (t, fs, s))) (free : gripOf fs = .free)
    (mine : Mine ms t r) (new : ¬ HasStarted ms t) (rested : Rested ms t w.setup.quiet w.clock) :
    Steady ms b (w.quietEnded t [] r) := by
  have quieted : Midst ms b (w.modifySlot r.slot fun k =>
      if k.pending = some t then { k with pending := none } else k) (some (t, fs, s)) := by
    refine h.sameSlot r.slot fun k => ?_
    split
    · rfl
    · rfl
  unfold World.quietEnded
  dsimp only
  split
  · rename_i current
    obtain ⟨k, found⟩ := slot_of_current current
    unfold acquire
    rw [found]
    split
    · rename_i nobody
      exact (quieted.grab free found (by simpa using nobody) mine new rested).locked
    · have joined := quieted.queue free found mine new rested
        (f := fun k => { k with lock := { k.lock with queue := k.lock.queue ++ [(t, .waiting)] } })
        fun _ => rfl
      exact joined.idle (current_park _ t [.queueing r] (.lock r.slot))
  · exact quieted.goOn free plain_nil trivial

theorem called (h : Midst ms b w (some (t, fs, s))) (grip : gripOf fs = .queued r.slot)
    (mine : Mine ms t r) (new : ¬ HasStarted ms t) (rested : Rested ms t w.setup.quiet w.clock)
    (entry : ∃ l, (w.bench (some (t, fs, s))).locks[r.slot]? = some l ∧ (t, .called) ∈ l.queue) :
    Steady ms b (w.called t [] r) := by
  obtain ⟨l, at_slot, called⟩ := entry
  simp only [bench, List.getElem?_map, Option.map_eq_some_iff] at at_slot
  obtain ⟨k, found, rfl⟩ := at_slot
  exact (h.take grip found called mine new rested).locked

theorem leftQueue (h : Midst ms b w (some (t, fs, s))) (grip : gripOf fs = .queued r.slot) {k : Slot}
    (found : w.slots[r.slot]? = some k) :
    Steady ms b (w.leftQueue t [] r) := by
  have left := h.leave grip found .cancelled plain_nil trivial
  unfold World.leftQueue
  dsimp only
  split
  · exact left.goOn rfl plain_nil trivial
  · rename_i free
    refine Midst.goOn (left.callNext fun k found => ?_) rfl plain_nil trivial
    simpa [found] using free

theorem compiled (h : Midst ms b w (some (t, fs, s))) (grip : gripOf fs = .holds r.slot) (v : Value) :
    Steady ms b (w.compiled t [] r v) := by
  have released := h.release grip (.value .unit) plain_nil trivial
  unfold World.compiled
  split
  · exact released.settle rfl plain_nil r _
  · exact released.goOn rfl plain_nil trivial

theorem compileCrashed (h : Midst ms b w (some (t, fs, s))) (grip : gripOf fs = .holds r.slot)
    (e : Fault) : Steady ms b (w.compileCrashed t [] r e) := by
  have released := (h.alike (.note w (.crashed r.doc e.message))).release grip
    (.value .unit) plain_nil trivial
  exact released.settle rfl plain_nil r _

/-- The quiet time of a request begins. -/
theorem rest (h : Midst ms b w (some (t, [], s))) (known : Known ms w) (mine : Mine ms t r)
    (new : ¬ HasStarted ms t) : Steady ms b (w.sleep t [.quiet r] w.setup.quiet) := by
  unfold World.sleep
  split
  · rename_i instant
    refine h.land (l := .turn [.quiet r]) ⟨rfl, .rested mine new (fun e he worker => ?_) (.inl rfl)⟩
    have := known.past e he
    show e.time + w.setup.quiet ≤ w.clock
    omega
  · rename_i later
    refine h.land (l := .timed [.quiet r] .alarm w.setup.quiet.toNat)
      ⟨rfl, .inl rfl, .quiet mine new fun a ha at_t e he worker => ?_⟩
    rcases List.mem_append.1 ha with old | set
    · exact absurd at_t (h.unalarmed a old)
    · have := known.past e he
      rw [List.mem_singleton.1 set]
      show e.time + w.setup.quiet ≤ ((w.clock + w.setup.quiet.toNat : Nat) : Int)
      omega

/-! ### Edits and closings -/

theorem bumped (h : Midst ms b w now) (doc : DocId) : Midst ms b (w.bumped doc) now := by
  have ensured : Midst ms b (w.ensureSlot doc).2 now := by
    cases found : w.slotOf? doc with
    | some u =>
      rw [ensureSlot_of_some found]
      exact h
    | none =>
      rw [ensureSlot_of_none found]
      have opened : Midst ms b { w with slots := w.slots ++ [Slot.new doc] } now := by
        have bench_eq : ({ w with slots := w.slots ++ [Slot.new doc] } : World).bench now =
            { w.bench now with locks := (w.bench now).locks ++ [Lock.free] } := by
          simp [bench, Slot.new]
        exact ⟨h.agrees, bench_eq ▸ h.orderly.openSlot, bench_eq ▸ ⟨h.since.quiet, h.since.clock, h.since.posts⟩⟩
      exact ⟨opened.agrees, opened.orderly, opened.since⟩
  exact ensured.sameSlot _ fun _ => rfl

theorem abandonPending (h : Midst ms b w now) (u : SlotId) : Midst ms b (w.abandonPending u) now := by
  have forgotten : Midst ms b (w.modifySlot u fun k => { k with pending := none }) now :=
    h.sameSlot u fun _ => rfl
  unfold World.abandonPending
  dsimp only
  split
  · split
    · exact forgotten
    · exact (forgotten.nudges (cancel_nudges _ _)).alike (.count _ _)
  · exact forgotten

theorem startRequest (h : Midst ms b w now) (mine : Mine ms w.tasks.length r)
    (new : ¬ HasStarted ms w.tasks.length) : Midst ms b (w.startRequest r) now := by
  have added := h.added (k := ⟨[], .start (.background r), .turn, false,
    [.forget r.slot w.tasks.length], none⟩) (.fresh mine new (.inl rfl)) rfl nofun
  have spawned : Midst ms b (w.spawn (.background r) fun b => [.forget r.slot b]).2 now :=
    ⟨added.agrees, added.orderly, added.since⟩
  exact spawned.sameSlot r.slot fun _ => rfl

/-- An edit whose text has to be compiled is the one of the next task. -/
theorem mine_of_edit (w : World) {name text : String} (needed : classify text = none) :
    Mine (ms ++ [.edited (w.editBegun (.name name) text)]) w.tasks.length
      ⟨(w.editBegun (.name name) text).slot, name, (w.editBegun (.name name) text).generation, text⟩ := by
  refine ⟨w.editBegun (.name name) text, by simp, ?_, rfl, rfl, rfl, rfl⟩
  simp [editBegun, workerFor, needsCompile, needed]

theorem edit (h : Midst ms b w (some (t, fs, s))) (plain : Plain fs) (known : Known ms w) (doc : DocId)
    (text : String) : Steady (ms ++ [.edited (w.editBegun doc text)]) b (w.beginEdit t fs doc text) := by
  let e := w.editBegun doc text
  have free := gripOf_plain plain
  have marked : Midst (ms ++ [.edited e]) b w (some (t, fs, s)) := by
    refine h.marks (fun m mem => List.mem_append_left _ mem) ?_ ?_
    · rintro u - ⟨time, r, x, started⟩
      exact ⟨time, r, x, by simpa using started⟩
    · intro u e' lt mem worker
      rcases List.mem_append.1 mem with old | new
      · exact old
      · obtain rfl : e' = e := by simpa using new
        simp only [e, editBegun, workerFor] at worker
        split at worker
        · split at worker
          · exact absurd (Option.some.inj worker) (Nat.ne_of_gt lt)
          · cases worker
        · cases worker
  have ready := (marked.bumped doc).abandonPending e.slot
  have length : ((w.bumped doc).abandonPending e.slot).tasks.length = w.tasks.length := by
    rw [length_abandonPending, tasks_bumped]
  by_cases named : ∃ name, doc = .name name
  · obtain ⟨name, rfl⟩ := named
    rw [beginEdit_name]
    dsimp only
    split
    · exact (ready.alike (.note _ _)).deliver free (all_cons rfl plain) e.slot name e.generation _
    · rename_i needed
      have mine : Mine (ms ++ [.edited e]) _ ⟨e.slot, name, e.generation, text⟩ := mine_of_edit w needed
      have new : ¬ HasStarted (ms ++ [.edited e]) w.tasks.length := by
        rintro ⟨time, r, x, started⟩
        have old : HasStarted ms w.tasks.length := ⟨time, r, x, by simpa using started⟩
        exact absurd (known.starters _ old) (Nat.lt_irrefl _)
      rw [← length] at mine new
      have noted := ready.alike (.note _ (.scheduled name e.generation text))
      exact (noted.startRequest mine new).deliver free (all_cons rfl plain) e.slot name e.generation _
  · rw [beginEdit_unnamed w t fs text fun name eq => named ⟨name, eq⟩]
    exact ready.goOn free plain trivial

theorem close {doc : DocId} (h : Midst ms b w (some (t, fs, s))) (plain : Plain fs)
    (running : w.current = some (t, fs, .start (.close doc)))
    (there : ∀ s, ∀ u ∈ w.tasksOf s, u < w.tasks.length) :
    Steady ms b (w.beginClose t fs doc) := by
  have removed : Midst ms b (w.removeSlot doc).2 (some (t, fs, s)) := by
    have shut (u : SlotId) : Midst ms b (w.modifySlot u fun k => { k with isOpen := false }) (some (t, fs, s)) :=
      h.sameSlot u fun _ => rfl
    unfold World.removeSlot
    cases w.slotOf? doc with
    | none =>
      cases doc with
      | name => exact ⟨h.agrees, h.orderly, h.since⟩
      | number | truth => exact ⟨h.agrees, h.orderly, h.since⟩
    | some u =>
      cases doc with
      | name => exact ⟨(shut u).agrees, (shut u).orderly, (shut u).since⟩
      | number | truth => exact ⟨(shut u).agrees, (shut u).orderly, (shut u).since⟩
  refine (removed.nudges (cancelAll_nudges _ _)).leads (beginClose_leads running there) ?_
  intro l c closes
  rw [gripOf_plain plain]
  cases closes with
  | through ends => exact Landing.ready_plain (l := .go fs _) plain ends.given trivial ms c t
  | @waits n g =>
    exact Landing.ready_plain (l := .park (.closing doc n :: fs) (.group g)) (all_cons rfl plain)
      trivial ⟨by simp, by simp, by simp⟩ ms c t

end Midst

/-! ### Whole steps -/

section
variable {ms : List Mark} {b : Bench} {w : World} {t : TaskId} {fs : List Frame} {s : Signal}

/-- A step that is neither an edit nor the start of a compile leaves the bench in order. -/
theorem Midst.unmarked (h : Midst ms b w (some (t, fs, s))) (known : Known ms w)
    (running : w.current = some (t, fs, s)) (noEdit : ∀ doc text, s ≠ .start (.edit doc text))
    (noStart : ∀ r fs' text, fs = .holding r :: fs' → s ≠ .start (.compile text)) :
    Midst (ms ++ w.mark?.toList) b w (some (t, fs, s)) ∧ Known (ms ++ w.mark?.toList) w := by
  have edits : ∀ e, .edited e ∈ ms ++ w.mark?.toList → .edited e ∈ ms := by
    intro e mem
    rcases List.mem_append.1 mem with old | new
    · exact old
    · obtain ⟨t', fs', doc, text, running', -⟩ := mark?_edited (Option.mem_toList.1 new)
      obtain ⟨-, -, same⟩ : _ ∧ _ ∧ s = _ := by simpa [running] using running'
      exact absurd same (noEdit doc text)
  have starts : ∀ u, HasStarted (ms ++ w.mark?.toList) u → HasStarted ms u := by
    rintro u ⟨time, r, text, started⟩
    rcases List.mem_append.1 started with old | new
    · exact ⟨time, r, text, old⟩
    · obtain ⟨-, fs', running'⟩ := mark?_started (Option.mem_toList.1 new)
      obtain ⟨-, top, same⟩ : _ ∧ fs = _ ∧ s = _ := by simpa [running] using running'
      exact absurd same (noStart r fs' text top)
  refine ⟨h.marks (fun m mem => List.mem_append_left _ mem) (fun u _ => starts u)
    (fun u e _ mem _ => edits e mem), ?_⟩
  exact ⟨fun e mem => known.past e (edits e mem), fun e u mem => known.workers e u (edits e mem),
    fun u started => known.starters u (starts u started)⟩

/-- The compiler is asked for. -/
theorem Midst.begun {r : Request} (time : Nat)
    (h : Midst ms b w (some (t, [.holding r], .start (.compile r.text)))) :
    Midst (ms ++ [.started time t r r.text]) b w (some (t, [.holding r], .cancelled)) := by
  have more : ∀ m ∈ ms, m ∈ ms ++ [.started time t r r.text] := fun m mem => List.mem_append_left _ mem
  have put := bench_put w t [.holding r] [.holding r] (.start (.compile r.text)) .cancelled
  have found : (w.bench (some (t, [.holding r], .start (.compile r.text)))).posts[t]? = _ :=
    running_post h.runs
  have mine : Mine (ms ++ [.started time t r r.text]) t r := by
    obtain ⟨-, ⟨e, mem, rest⟩, -⟩ := (h.orderly.stage t _ found).at_holding
    exact ⟨e, more _ mem, rest⟩
  have others : ∀ u q, u ≠ t → Stage ms (w.bench (some (t, [.holding r], .start (.compile r.text)))) u q →
      Stage (ms ++ [.started time t r r.text])
        (w.bench (some (t, [.holding r], .start (.compile r.text)))) u q := by
    intro u q other stage
    refine stage.marks more ?_ fun e mem _ => by simpa using mem
    rintro ⟨time', r', text, started⟩
    rcases List.mem_append.1 started with old | new
    · exact ⟨time', r', text, old⟩
    · simp [other] at new
  have orderly := h.orderly.replace found ⟨[.holding r], .cancelled, .running⟩ w.alarms (by simp) rfl (fun a ha => .inl ⟨h.unalarmed a ha, ha⟩) others
    (Stage.holding mine .cancelled (.inl rfl) ⟨nofun, nofun⟩ ⟨time, by simp⟩)
  refine ⟨h.agrees.again _ _, put ▸ orderly, put ▸ ?_⟩
  exact ⟨h.since.quiet, h.since.clock, by simpa [Bench.put] using h.since.posts⟩

theorem Sane.move_steady (h : w.Sane) (running : w.current = some (t, fs, s))
    (midst : Midst ms b w (some (t, fs, s))) (known : Known ms w) :
    Steady (ms ++ w.mark?.toList) b (w.move t fs s) := by
  obtain ⟨fits, -⟩ := h.running t fs s running
  have stage := midst.orderly.stage t _ (running_post midst.runs)
  have unmarked := midst.unmarked known running
  have unedited : s.IsEnd → ∀ doc text, s ≠ .start (.edit doc text) := by
    rintro ends doc text rfl
    exact ends
  have unstarted : s.IsEnd → ∀ r fs' text, fs = .holding r :: fs' → s ≠ .start (.compile text) := by
    rintro ends r fs' text - rfl
    exact ends
  cases prospect (h.licit running) fs with
  | aside aside =>
    have leads := move_leads running aside h.members
    have noEdit : ∀ doc text, s ≠ .start (.edit doc text) := by
      rintro doc text rfl
      exact aside.2.1 doc text rfl
    rcases stage.at_aside aside with plain | ⟨r, mine, ⟨rfl, rfl⟩ | ⟨pre, rfl, compiles, going, started⟩⟩
    · obtain ⟨midst', -⟩ := unmarked noEdit (by rintro r fs' text rfl; cases plain _ List.mem_cons_self)
      refine midst'.leads leads fun l c turn => ?_
      obtain ⟨plain', given⟩ := turn.keeps (kept_plain w.subscribers) h.subscribers
        (asked_public fits) plain
      exact (gripOf_plain plain).symm ▸ Landing.ready_plain plain' given turn.calm _ c t
    · have marked : w.mark? = some (.started w.clock t r r.text) := by simp [mark?, running]
      rw [marked]
      refine (midst.begun w.clock).leads leads fun l c turn => ?_
      have compiling : l.Compiling [.holding r] := by
        cases turn with
        | begins lands => exact lands.compiling
        | opens ends | waits ends | pops _ ends => exact ends.elim
      obtain ⟨e, mem, rest⟩ := mine
      exact compiling.ready ⟨e, List.mem_append_left _ mem, rest⟩ ⟨w.clock, by simp⟩ c
    · obtain ⟨midst', -⟩ := unmarked noEdit fun _ _ text _ => compiles.onward text
      refine midst'.leads leads fun l c turn => ?_
      obtain ⟨e, mem, rest⟩ := mine
      obtain ⟨time, begun⟩ := started
      rw [gripOf_holding]
      exact (compiles.turn going turn).ready ⟨e, List.mem_append_left _ mem, rest⟩
        ⟨time, List.mem_append_left _ begun⟩ c
  | edit doc text =>
    have marked : w.mark? = some (.edited (w.editBegun doc text)) := by simp [mark?, running]
    rw [marked]
    exact midst.edit (stage.at_start (.edit doc text) (by simp)) known doc text
  | close doc =>
    exact (unmarked (by simp) (by simp)).1.close (stage.at_start (.close doc) (by simp)) running h.members
  | background r =>
    obtain ⟨midst', known'⟩ := unmarked (by simp) (by simp)
    obtain ⟨rfl, mine, new⟩ := (midst'.orderly.stage t _ (running_post midst.runs)).at_background
    exact midst'.rest known' mine new
  | quiet r ends =>
    obtain ⟨midst', -⟩ := unmarked (unedited ends) (unstarted ends)
    obtain ⟨rfl, rfl | ⟨⟨v, rfl⟩, mine, new, rested⟩⟩ :=
      (midst'.orderly.stage t _ (running_post midst.runs)).at_quiet
    · exact (midst'.alike (.note w _)).goOn rfl plain_nil trivial
    · exact midst'.quietEnded rfl mine new rested
  | queueing r ends =>
    obtain ⟨midst', -⟩ := unmarked (unedited ends) (unstarted ends)
    obtain ⟨rfl, rfl | ⟨⟨v, rfl⟩, mine, new, rested, entry⟩⟩ :=
      (midst'.orderly.stage t _ (running_post midst.runs)).at_queueing
    · obtain ⟨a, at_slot, -⟩ := fits.top
      rw [seats_getElem?, Option.map_eq_some_iff] at at_slot
      obtain ⟨k, found, -⟩ := at_slot
      exact midst'.leftQueue rfl found
    · exact midst'.called rfl mine new rested entry
  | holding r ends =>
    obtain ⟨midst', -⟩ := unmarked (unedited ends) (unstarted ends)
    obtain ⟨rfl, -⟩ := stage.at_holding
    have grip : gripOf [.holding r] = .holds r.slot := gripOf_holding [] r
    cases s with
    | start => exact ends.elim
    | value v => exact midst'.compiled grip v
    | fault e => exact midst'.compileCrashed grip e
    | cancelled =>
      exact (midst'.release grip .cancelled plain_nil trivial).goOn rfl
        plain_nil trivial

theorem Midst.later {now : Option (TaskId × List Frame × Signal)} (h : Midst ms b w now) {clock : Nat}
    (le : w.clock ≤ clock) : Midst ms b { w with clock } now :=
  ⟨h.agrees, h.orderly.later le, ⟨h.since.quiet, Nat.le_trans h.since.clock le, h.since.posts⟩⟩

theorem Midst.stir {i : Input} {v : World} {now : Option (TaskId × List Frame × Signal)}
    (h : Midst ms b w now) (allowed : i.IsPublic) (step : Stir i w v) : Midst ms b v now := by
  cases step with
  | alike same => exact h.alike same
  | later le => exact h.later le
  | child | enables | dates | taken | counts => exact ⟨h.agrees, h.orderly, h.since⟩
  | nudge step => exact h.nudge step
  | cancel _ => exact h.nudges (cancel_nudges _ _)
  | spawn asked =>
    refine h.spawn ?_
    rintro r rfl
    cases allowed.queues asked

theorem Steady.stirs {i : Input} {v : World} (h : Steady ms b w) (allowed : i.IsPublic)
    (steps : Stirs i w v) : Steady ms b v := by
  obtain ⟨records, -, -, current, -⟩ := steps.rest
  have seats : v.seats = w.seats := by rw [seats_of_records records, ← seats_of_records rfl]
  refine ⟨?_, h.eager.same current seats⟩
  rw [current]
  have midst := h.midst
  generalize w.current = now at midst
  clear records current seats h
  induction steps with
  | refl => exact midst
  | tail _ step ih => exact ih.stir allowed step

/-- Whatever happens to a sane and steady state, steady it stays. -/
theorem Sane.apply_steady (h : w.Sane) (steady : Steady ms b w) (known : Known ms w) {i : Input}
    (allowed : i.IsPublic) : Steady (ms ++ w.marks i) b (w.apply i) := by
  have happens := w.apply_happens i
  generalize w.apply i = v at *
  cases happens with
  | @moves t fs s running => exact h.move_steady running (running ▸ steady.midst) known
  | @resumes t rest idle =>
    rw [marks_idle fun _ => idle, List.append_nil]
    have taken : Midst ms b { w with queue := rest } none :=
      ⟨idle ▸ steady.midst.agrees, idle ▸ steady.midst.orderly, idle ▸ steady.midst.since⟩
    exact taken.resume idle t
  | @forgets u t rest idle =>
    rw [marks_idle fun _ => idle, List.append_nil]
    have taken : Midst ms b { w with queue := rest } none :=
      ⟨idle ▸ steady.midst.agrees, idle ▸ steady.midst.orderly, idle ▸ steady.midst.since⟩
    exact Midst.idle (taken.sameSlot u fun _ => rfl) idle
  | @launches op idle =>
    rw [marks_silent (i := .begin op) nofun, List.append_nil]
    have midst : Midst ms b w none := idle ▸ steady.midst
    refine midst.launch ?_
    rintro r rfl
    cases allowed
  | @subscribes s =>
    rw [marks_silent (i := .subscribe s) nofun, List.append_nil]
    exact ⟨⟨steady.midst.agrees, steady.midst.orderly, steady.midst.since⟩, steady.eager⟩
  | stirs stirred still =>
    rw [marks_idle still, List.append_nil]
    exact steady.stirs allowed stirred

end
end World
end InkPreview.Live
