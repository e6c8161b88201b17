import InkPreview.Proofs.Live.Exits
/-!
No edit is lost. Every edit whose text has to be compiled is gone through with in exactly one of four ways, and the
counters and the updates of the slots tell how many went which way. Main statement: `requests_conserved`.
-/
namespace InkPreview

/-- Whether a mode shows what a compile has come to. -/
def Mode.isAnswer (m : Mode) : Bool := m.kind == .compiled || m.kind == .compilerError

namespace Live

theorem isAnswer_answerMode (o : Except Fault Outcome) : (answerMode o).isAnswer = true := by
  rcases o with f | story | ⟨k, m⟩ <;> rfl

theorem isAnswer_firstMode (text : String) : (firstMode text).isAnswer = false := by
  unfold firstMode classify
  split
  · rfl
  · split
    · rfl
    · rfl

/-- The counter of an exit. -/
def Exit.counter? : Exit → Option Counter
  | .abandoned => some .abandoned
  | .dropped => some .dropped
  | .superseded | .delivered => none

/-- The text of the edit is that of a document with a name and has to be compiled. -/
def Edit.asks (e : Edit) : Bool :=
  match e.doc with
  | .name _ => needsCompile e.text
  | _ => false

/-- The edits whose text has to be compiled, oldest first. -/
def compiling (ms : List Mark) : List Edit :=
  ms.filterMap fun m =>
    match m with
    | .edited e => if e.asks then some e else none
    | _ => none

/-- The exits of the task of an edit. -/
def Edit.fate (xs : List (TaskId × Exit)) (e : Edit) : List Exit := e.worker.toList.flatMap (exitsOf xs)

theorem Edit.fate_of_worker {e : Edit} {t : TaskId} (worker : e.worker = some t) (xs : List (TaskId × Exit)) :
    e.fate xs = exitsOf xs t := by
  simp [fate, worker]

theorem mem_compiling {ms : List Mark} {e : Edit} : e ∈ compiling ms ↔ .edited e ∈ ms ∧ e.asks = true :=
  mem_editsWhere (p := fun e => e.asks = true)

/-! ### Counting edits by their exits -/

theorem count_exitsOf (xs : List (TaskId × Exit)) (t : TaskId) : (exitsOf xs t).length = (xs.map (·.1)).count t := by
  induction xs with
  | nil => rfl
  | cons p rest ih =>
    obtain ⟨u, x⟩ := p
    by_cases here : u = t
    · simpa [exitsOf, here] using ih
    · simpa [exitsOf, here] using ih

/-- Of tasks that take at most one exit each, a task that takes an exit takes no other. -/
theorem exitsOf_eq_single {xs : List (TaskId × Exit)} (once : (xs.map (·.1)).Nodup) {t : TaskId} {x : Exit} :
    exitsOf xs t = [x] ↔ (t, x) ∈ xs := by
  rw [← mem_exitsOf]
  refine ⟨fun eq => eq ▸ List.mem_cons_self, fun mem => ?_⟩
  have bound : (exitsOf xs t).length ≤ 1 := count_exitsOf xs t ▸ List.nodup_iff_count_le_one.1 once t
  match exitsOf xs t, mem, bound with
  | [y], mem, _ => rw [List.mem_singleton.1 mem]

/-- As many exits of a kind are taken as there are edits whose tasks take such an exit. -/
theorem countP_fate {es : List Edit} {xs : List (TaskId × Exit)} (apart : es.Pairwise fun e e' => e.worker ≠ e'.worker)
    (hired : ∀ e ∈ es, e.worker ≠ none) (once : (xs.map (·.1)).Nodup)
    (taken : ∀ t x, (t, x) ∈ xs → ∃ e ∈ es, e.worker = some t) (x : Exit) :
    xs.countP (·.2 = x) = es.countP fun e => e.fate xs = [x] := by
  have left : ((xs.filter (·.2 = x)).map fun p => some p.1).Nodup := by
    have few : ((xs.filter (·.2 = x)).map (·.1)).Nodup := once.sublist (List.filter_sublist.map _)
    simpa [List.map_map, Function.comp_def] using few.map fun _ _ => Option.some.inj
  have right : ((es.filter fun e => e.fate xs = [x]).map (·.worker)).Nodup :=
    List.pairwise_map.2 (apart.filter _)
  have same : ∀ o, o ∈ (xs.filter (·.2 = x)).map (fun p => some p.1) ↔
      o ∈ (es.filter fun e => e.fate xs = [x]).map (·.worker) := by
    intro o
    simp only [List.mem_map, List.mem_filter, decide_eq_true_eq]
    constructor
    · rintro ⟨⟨t, y⟩, ⟨mem, rfl⟩, rfl⟩
      obtain ⟨e, edit, worker⟩ := taken t y mem
      exact ⟨e, ⟨edit, (Edit.fate_of_worker worker xs).trans ((exitsOf_eq_single once).2 mem)⟩, worker⟩
    · rintro ⟨e, ⟨edit, fate⟩, rfl⟩
      obtain ⟨t, worker⟩ := Option.ne_none_iff_exists'.1 (hired e edit)
      rw [Edit.fate_of_worker worker, exitsOf_eq_single once] at fate
      exact ⟨(t, x), ⟨fate, rfl⟩, worker.symm⟩
  simpa [List.countP_eq_length_filter] using ((List.perm_ext_iff_of_nodup left right).2 same).length_eq

namespace World

/-- The last update of a slot. -/
def shown? (w : World) (x : SlotId) : Option Update := w.slots[x]?.bind (·.lastUpdate)

/-- The answers of the compiler that slots show after an input and did not show before. -/
def answersOn (w : World) (i : Input) : List Update :=
  (List.range (w.apply i).slots.length).filterMap fun x =>
    ((w.apply i).shown? x).filter fun u => u.mode.isAnswer && w.shown? x != some u

def answersAlong (w : World) : List Input → List Update
  | [] => []
  | i :: rest => w.answersOn i ++ (w.apply i).answersAlong rest

/-- The exits that are taken while measurements are. -/
def notedAlong (w : World) : List Input → List (TaskId × Exit)
  | [] => []
  | i :: rest => (if w.metrics.enabled then w.exitsOn i else []) ++ (w.apply i).notedAlong rest

/-- A newer edit has come to the slot of the request. -/
def Outdated (w : World) (r : Request) : Prop := r.generation < w.generationOf r.slot

/-- What the exit of a task stands for. -/
inductive Accounts (ms : List Mark) (w : World) (ys : List Update) (t : TaskId) : Exit → Prop
  | abandoned {r : Request} (mine : Mine ms t r) (outdated : w.Outdated r) : Accounts ms w ys t .abandoned
  | superseded {r : Request} (mine : Mine ms t r) (outdated : w.Outdated r) : Accounts ms w ys t .superseded
  | dropped {r : Request} {o : Except Fault Outcome} (mine : Mine ms t r) (outdated : w.Outdated r)
      (ended : .ended t r o ∈ ms) : Accounts ms w ys t .dropped
  | delivered {r : Request} {o : Except Fault Outcome} {u : Update} (mine : Mine ms t r) (ended : .ended t r o ∈ ms)
      (shown : u ∈ ys) (isFor : u.IsFor r.slot r.doc r.generation (answerMode o)) : Accounts ms w ys t .delivered

/-- Every exit is accounted for, and the updates with an answer are those of the edits that are delivered. -/
structure Audited (ms : List Mark) (w : World) (xs : List (TaskId × Exit)) (ys : List Update) : Prop where
  unanswered : ∀ t r u, Mine ms t r → exitsOf xs t = [] → w.shown? r.slot = some u → u.generation = r.generation →
    u.mode.isAnswer = false
  paired : ys.length = xs.countP (·.2 = .delivered)
  accounts : ∀ t e, (t, e) ∈ xs → Accounts ms w ys t e

/-- What has become of an edit whose text has to be compiled. -/
inductive Fares (ms : List Mark) (w : World) (xs : List (TaskId × Exit)) (ys : List Update) (e : Edit) : Prop
  /-- Its task is at work for it. -/
  | working {t : TaskId} {name : String} (worker : e.worker = some t) (fate : e.fate xs = [])
      (carries : w.Carries t ⟨e.slot, name, e.generation, e.text⟩) (out : w.hasEnded t = false)
  /-- A newer edit has come while the task waited for quiet, and no process has been started. -/
  | abandoned (fate : e.fate xs = [.abandoned]) (barren : ∀ p ∈ w.processes, e.worker ≠ some p.owner)
      (newer : ∃ e', .edited e' ∈ ms ∧ e'.slot = e.slot ∧ e.generation < e'.generation)
  /-- A newer edit has come while the task waited for the lock, and no process has been started. -/
  | superseded (fate : e.fate xs = [.superseded]) (barren : ∀ p ∈ w.processes, e.worker ≠ some p.owner)
      (newer : ∃ e', .edited e' ∈ ms ∧ e'.slot = e.slot ∧ e.generation < e'.generation)
  /-- The text has been compiled, but a newer edit had come. -/
  | dropped {m : Mode} (fate : e.fate xs = [.dropped]) (settles : Settles ms e m)
      (newer : ∃ e', .edited e' ∈ ms ∧ e'.slot = e.slot ∧ e.generation < e'.generation)
  /-- What the text has been compiled to has been shown. -/
  | delivered {u : Update} {name : String} (fate : e.fate xs = [.delivered]) (settles : Settles ms e u.mode)
      (shown : u ∈ ys)
      (isFor : u.IsFor e.slot name e.generation u.mode)

section
variable {ms : List Mark} {b : Bench} {w v : World} {t u : TaskId} {r : Request} {fs : List Frame} {s : Signal}
  {k : Slot} {i : Input} {l : Landing} {ks : List Slot} {x : SlotId} {xs : List (TaskId × Exit)}
  {ys : List Update} {e : Exit}

/-! ### What the slots show -/

theorem shown?_records (w : World) (x : SlotId) : w.shown? x = w.records[x]?.bind (·.lastUpdate) := by
  rw [records_getElem?, shown?]
  cases w.slots[x]? <;> rfl

theorem shown?_bumped (w : World) (doc : DocId) (x : SlotId) : (w.bumped doc).shown? x = w.shown? x := by
  have bump (v : World) (y : SlotId) (n : Nat) :
    (v.modifySlot y fun k => { k with generation := n }).shown? x = v.shown? x := by
    simp only [shown?, modifySlot, List.getElem?_modify]
    cases v.slots[x]? with
    | none => rfl
    | some k => by_cases here : y = x <;> simp [here]
  unfold bumped
  cases registered : w.slotOf? doc with
  | some y =>
    rw [ensureSlot_of_some registered]
    exact bump w y _
  | none =>
    rw [ensureSlot_of_none registered]
    refine (bump _ _ _).trans ?_
    simp only [shown?, gaugeDocuments]
    by_cases old : x < w.slots.length
    · rw [List.getElem?_append_left old]
    · rw [List.getElem?_eq_none (Nat.le_of_not_lt old)]
      cases found : (w.slots ++ [Slot.new doc])[x]? with
      | none => rfl
      | some k =>
        rcases getElem?_concat_iff.1 found with known | ⟨-, rfl⟩
        · exact absurd (List.getElem?_eq_some_iff.1 known).1 old
        · rfl

/-- What a slot shows is as it was, or the update of an edit, as it begins or is answered. -/
inductive Displays (w : World) (i : Input) (x : SlotId) : Option Update → Prop
  | kept : Displays w i x (w.shown? x)
  | first {t : TaskId} {fs : List Frame} {name text : String} {u : Update} (tick : i = .tick)
      (running : w.current = some (t, fs, .start (.edit (.name name) text)))
      (here : (w.editBegun (.name name) text).slot = x)
      (isFor : u.IsFor x name (w.editBegun (.name name) text).generation (firstMode text)) : Displays w i x (some u)
  | answer {t : TaskId} {r : Request} {fs : List Frame} {o : Except Fault Outcome} {u : Update} (tick : i = .tick)
      (running : w.current = some (t, .holding r :: fs, answerSignal o)) (here : r.slot = x)
      (current : w.isCurrent r.slot r.generation = true)
      (isFor : u.IsFor r.slot r.doc r.generation (answerMode o)) : Displays w i x (some u)

theorem Sane.apply_shown (h : w.Sane) (allowed : i.IsPublic) (x : SlotId) : w.Displays i x ((w.apply i).shown? x) := by
  rw [shown?_records]
  cases found : (w.apply i).records[x]? with
  | none =>
    have before : w.shown? x = none := by
      rw [shown?_records]
      cases old : w.records[x]? with
      | none => rfl
      | some k =>
        obtain ⟨a, seat, -⟩ := (h.apply allowed).ages x _ (seat_of_record old)
        rw [seats_of_records rfl, List.getElem?_map, found] at seat
        cases seat
    have still : w.Displays i x (w.shown? x) := .kept
    rw [before] at still
    exact still
  | some k' =>
    show w.Displays i x k'.lastUpdate
    have still (same : k'.lastUpdate = w.shown? x) : w.Displays i x k'.lastUpdate := same ▸ .kept
    cases h.apply_revised i found with
    | kept at_x _ same =>
      refine still (same.trans ?_)
      rw [shown?_records, at_x]
      rfl
    | settled tick running here _ _ current shown isFor => exact shown ▸ .answer tick running here current isFor
    | @edited t fs doc text tick running here _ _ _ _ shows =>
      by_cases named : ∃ name, doc = .name name
      · obtain ⟨name, rfl⟩ := named
        obtain ⟨u, shown, isFor⟩ := shows name rfl
        exact shown ▸ .first tick running here isFor
      · subst tick
        refine still ?_
        have step : (w.apply .tick).records =
            (w.bumped doc).records.modify (w.editBegun doc text).slot fun k => { k with pending := none } := by
          rw [show w.apply .tick = w.beginEdit t fs doc text from tick_running running,
            beginEdit_unnamed w t fs text fun name eq => named ⟨name, eq⟩]
          exact records_abandonPending _
        rw [step] at found
        obtain ⟨k, at_x, rfl⟩ := modify_record found
        rw [← shown?_bumped w doc, shown?_records, at_x]
        split
        · rfl
        · rfl

/-! ### What is new -/

/-- Of a list that holds something once, only that may be picked. -/
theorem filterMap_single {α β : Type} {as : List α} (once : as.Nodup) {a : α} (mem : a ∈ as) {f : α → Option β} {c : β}
    (here : f a = some c) (else_ : ∀ a' ∈ as, a' ≠ a → f a' = none) : as.filterMap f = [c] := by
  obtain ⟨before, after, rfl⟩ := List.append_of_mem mem
  obtain ⟨-, once', apart⟩ := List.nodup_append.1 once
  have early : before.filterMap f = [] := List.filterMap_eq_nil_iff.2 fun a' mem' =>
    else_ a' (by simp [mem']) (apart a' mem' a List.mem_cons_self)
  have late : after.filterMap f = [] := List.filterMap_eq_nil_iff.2 fun a' mem' =>
    else_ a' (by simp [mem']) fun eq => (List.nodup_cons.1 once').1 (eq ▸ mem')
  simp [List.filterMap_append, early, late, here]

/-- Nothing new is shown unless the answer for an edit that counts is there. -/
theorem Sane.no_answer (h : w.Sane) (allowed : i.IsPublic)
    (none : ∀ t r fs o, i = .tick → w.current = some (t, .holding r :: fs, answerSignal o) →
      w.isCurrent r.slot r.generation = false) : w.answersOn i = [] := by
  refine List.filterMap_eq_nil_iff.2 fun x _ => ?_
  have displays := h.apply_shown allowed x
  generalize (w.apply i).shown? x = shown at displays
  cases displays with
  | kept => 
    cases w.shown? x with
    | none => rfl
    | some u => simp [Option.filter]
  | first _ _ _ isFor => simp [Option.filter, isFor.mode, isAnswer_firstMode]
  | answer tick running _ current =>
    rw [none _ _ _ _ tick running] at current
    cases current

/-- The answer for an edit that counts is what is new. -/
theorem Sane.new_answer (h : w.Sane) {o : Except Fault Outcome}
    (running : w.current = some (t, .holding r :: fs, answerSignal o))
    (current : w.isCurrent r.slot r.generation = true)
    (fresh : ∀ u, w.shown? r.slot = some u → u.generation = r.generation → u.mode.isAnswer = false) :
    ∃ u, u.IsFor r.slot r.doc r.generation (answerMode o) ∧ w.answersOn .tick = [u] := by
  obtain ⟨u, isFor, records⟩ := h.tick_settles running current
  obtain ⟨a, seat, -, -⟩ := isCurrent_iff.1 current
  rw [seats_of_records rfl, List.getElem?_map] at seat
  obtain ⟨k, found, rfl⟩ := Option.map_eq_some_iff.1 seat
  have shown : (w.apply .tick).shown? r.slot = some u := by
    rw [shown?_records, show w.apply .tick = w.tick from rfl, records, List.getElem?_modify_eq, found]
    rfl
  have there : r.slot < (w.apply .tick).slots.length := by
    refine Nat.lt_of_not_le fun past => ?_
    rw [shown?, List.getElem?_eq_none past] at shown
    cases shown
  refine ⟨u, isFor, filterMap_single List.nodup_range (List.mem_range.2 there) ?_ fun x _ other => ?_⟩
  · have new : w.shown? r.slot ≠ some u := by
      intro same
      have plain := fresh u same isFor.generation
      rw [isFor.mode, isAnswer_answerMode] at plain
      cases plain
    simp [shown, Option.filter, isFor.mode, isAnswer_answerMode, new]
  · have displays := h.apply_shown (i := .tick) trivial x
    generalize (w.apply .tick).shown? x = shown at displays
    cases displays with
    | kept =>
      cases w.shown? x with
      | none => rfl
      | some u => simp [Option.filter]
    | first _ running' =>
      have begins : answerSignal o = .start _ := congrArg (·.2.2) (Option.some.inj (running.symm.trans running'))
      have ends := answerSignal_end o
      rw [begins] at ends
      exact ends.elim
    | @answer t' r' fs' o' _ _ running' here =>
      obtain ⟨-, ⟨rfl, -⟩, -⟩ : t = t' ∧ (r = r' ∧ fs = fs') ∧ answerSignal o = answerSignal o' := by
        simpa using running.symm.trans running'
      exact absurd here.symm other

/-! ### What the exits stand for -/

theorem Accounts.more {ms' : List Mark} {ys' : List Update} (h : Accounts ms w ys t e) (ages : Ages w.seats v.seats)
    (marks : ∀ m ∈ ms, m ∈ ms') (answers : ∀ u ∈ ys, u ∈ ys') : Accounts ms' v ys' t e := by
  have mine {r : Request} (mine : Mine ms t r) : Mine ms' t r := by
    obtain ⟨e, mem, rest⟩ := mine
    exact ⟨e, marks _ mem, rest⟩
  have later {r : Request} (outdated : w.Outdated r) : v.Outdated r :=
    Nat.lt_of_lt_of_le outdated (generationOf_ages ages r.slot)
  cases h with
  | abandoned of_t outdated => exact .abandoned (mine of_t) (later outdated)
  | superseded of_t outdated => exact .superseded (mine of_t) (later outdated)
  | dropped of_t outdated ended => exact .dropped (mine of_t) (later outdated) (marks _ ended)
  | delivered of_t ended shown isFor => exact .delivered (mine of_t) (marks _ ended) (answers _ shown) isFor

theorem Booked.reached (h : Booked ms w) (mine : Mine ms t r) : r.generation ≤ w.generationOf r.slot := by
  obtain ⟨e, edit, -, slot, -, generation, -⟩ := mine
  obtain ⟨a, seat, bound⟩ := h.numbered e edit
  rw [slot] at seat
  simpa [generationOf_seats, seat, generation] using bound

/-- An edit that does not count any more, of an open slot, is out of date. -/
theorem Booked.outdated (h : Booked ms w) (mine : Mine ms t r)
    (isOpen : ∀ k, w.records[r.slot]? = some k → k.isOpen = true)
    (stale : w.isCurrent r.slot r.generation = false) : w.Outdated r := by
  refine Nat.lt_of_le_of_ne (h.reached mine) fun same => ?_
  obtain ⟨e, edit, -, slot, -⟩ := mine
  obtain ⟨a, seat, -⟩ := h.numbered e edit
  rw [slot, seats_of_records rfl, List.getElem?_map] at seat
  obtain ⟨k, found, -⟩ := Option.map_eq_some_iff.1 seat
  have current := isCurrent_of_record found (isOpen k found)
  have newest : k.generation = r.generation := by
    rw [same, generationOf_seats, seat_of_record found]
    rfl
  rw [newest, stale] at current
  cases current

namespace Conducted

/-- Every exit that is taken is accounted for. -/
theorem accounts (h : Conducted ms w xs) (flight : Flight ms b w) (allowed : i.IsPublic)
    (isOpen : ∀ (x : SlotId) k, w.records[x]? = some k → k.isOpen = true) (taken : (t, e) ∈ w.exitsOn i)
    (answers : ∀ r fs o, i = .tick → w.current = some (t, .holding r :: fs, answerSignal o) →
      w.isCurrent r.slot r.generation = true → ∃ u ∈ ys, u.IsFor r.slot r.doc r.generation (answerMode o)) :
    Accounts (ms ++ w.marks i) (w.apply i) ys t e := by
  have ages := (flight.sane.apply allowed).ages
  obtain ⟨rfl, mem⟩ := mem_exitsOn taken
  rcases mem_exits mem with ⟨rfl, u, fs, doc, text, x, k, running, registered, found, pending⟩ |
    ⟨r, fs, v, running, rfl, stale⟩ | ⟨r, fs, o, running, rfl⟩
  · obtain ⟨r, mine, rfl⟩ := h.listed x k t found pending
    have here : (w.editBegun doc text).slot = r.slot := by simp [editBegun, ensureSlot_of_some registered]
    have raised : (w.apply .tick).generationOf r.slot = w.generationOf r.slot + 1 := by
      rw [show w.apply .tick = w.beginEdit u fs doc text from tick_running running,
        generationOf_same (seats_beginEdit u fs doc text), generationOf_bumped w doc text, if_pos here.symm, editBegun_next, here]
    have reached := flight.booked.reached mine
    exact .abandoned (mine_more mine) (by rw [Outdated, raised]; omega)
  · rcases (flight.stage (flight.post?_running running)).at_queueing.2 with eq | ⟨-, mine, -⟩
    · cases eq
    · have outdated := flight.booked.outdated mine (fun k => isOpen _ k) stale
      exact .superseded (mine_more mine) (Nat.lt_of_lt_of_le outdated (generationOf_ages ages _))
  · have mine := (flight.stage (flight.post?_running running)).at_holding.2.1
    have ended : .ended t r o ∈ ms ++ w.marks .tick := by simp [marks, mark?_ended running]
    cases current : w.isCurrent r.slot r.generation with
    | true =>
      obtain ⟨u, shown, isFor⟩ := answers r fs o rfl running current
      exact .delivered (mine_more mine) ended shown isFor
    | false =>
      have outdated := flight.booked.outdated mine (fun k => isOpen _ k) current
      exact .dropped (mine_more mine) (Nat.lt_of_lt_of_le outdated (generationOf_ages ages _)) ended

/-- A task that has the answer of the compile has not taken an exit. -/
theorem working (h : Conducted ms w xs) (flight : Flight ms b w) (running : w.current = some (t, .holding r :: fs, s))
    (mine : Mine ms t r) : exitsOf xs t = [] := by
  have conduct := h.conduct t r mine
  generalize exitsOf xs t = es at conduct
  cases conduct with
  | awaits | queues | compiles => rfl
  | leaves doomed => simpa using doomed.running flight running
  | through post retired =>
    obtain rfl := Option.some.inj (post.symm.trans (flight.post?_running running))
    rcases (flight.stage post).retired retired with ended | ⟨plain, -⟩
    · cases ended
    · cases plain _ List.mem_cons_self

/-- An answer is new with the step that delivers it, and with no other. -/
theorem answers_paired (h : Conducted ms w xs) (audited : Audited ms w xs ys) (flight : Flight ms b w)
    (allowed : i.IsPublic) :
    (w.answersOn i).length = (w.exitsOn i).countP (·.2 = .delivered) ∧
      ∀ t r fs o, i = .tick → w.current = some (t, .holding r :: fs, answerSignal o) →
        w.isCurrent r.slot r.generation = true →
          ∃ u ∈ w.answersOn i, u.IsFor r.slot r.doc r.generation (answerMode o) := by
  by_cases settles : ∃ t r fs o, i = .tick ∧ w.current = some (t, .holding r :: fs, answerSignal o) ∧
      w.isCurrent r.slot r.generation = true
  · obtain ⟨t, r, fs, o, rfl, running, current⟩ := settles
    obtain ⟨-, mine, -⟩ := (flight.stage (flight.post?_running running)).at_holding
    obtain ⟨u, isFor, new⟩ := flight.sane.new_answer running current fun u =>
      audited.unanswered t r u mine (h.working flight running mine)
    refine ⟨?_, fun t' r' fs' o' _ running' _ => ?_⟩
    · simp [new, exitsOn, exits_answered running, current]
    · obtain ⟨-, ⟨rfl, -⟩, same⟩ : t = t' ∧ (r = r' ∧ fs = fs') ∧ answerSignal o = answerSignal o' := by
        simpa using running.symm.trans running'
      obtain rfl := answerSignal_inj same
      exact ⟨u, by simp [new], isFor⟩
  · have nothing : w.answersOn i = [] := flight.sane.no_answer allowed fun t r fs o tick running =>
      Bool.eq_false_iff.2 fun current => settles ⟨t, r, fs, o, tick, running, current⟩
    refine ⟨?_, fun t r fs o tick running current => absurd ⟨t, r, fs, o, tick, running, current⟩ settles⟩
    rw [nothing]
    refine (List.countP_eq_zero.2 fun p mem => ?_).symm
    obtain ⟨t, e⟩ := p
    obtain ⟨rfl, mem⟩ := mem_exitsOn mem
    rcases mem_exits mem with ⟨rfl, -⟩ | ⟨r, fs, v, -, rfl, -⟩ | ⟨r, fs, o, running, rfl⟩
    · simp
    · simp
    · cases current : w.isCurrent r.slot r.generation with
      | true => exact absurd ⟨t, r, fs, o, rfl, running, current⟩ settles
      | false => simp

end Conducted

theorem Audited.apply (h : Audited ms w xs ys) (conducted : Conducted ms w xs) (flight : Flight ms b w)
    (allowed : i.IsPublic) (isOpen : ∀ (x : SlotId) k, w.records[x]? = some k → k.isOpen = true) :
    Audited (ms ++ w.marks i) (w.apply i) (xs ++ w.exitsOn i) (ys ++ w.answersOn i) := by
  obtain ⟨paired, answers⟩ := conducted.answers_paired h flight allowed
  refine ⟨fun t r u mine working shown newest => ?_, ?_, fun t e mem => ?_⟩
  · obtain ⟨before, now⟩ : exitsOf xs t = [] ∧ exitsOf (w.exitsOn i) t = [] := by simpa using working
    obtain ⟨e, edit, worker, slot, doc, generation, text⟩ := mine
    rcases List.mem_append.1 edit with old | new
    · have mine : Mine ms t r := ⟨e, old, worker, slot, doc, generation, text⟩
      have displays := flight.sane.apply_shown allowed r.slot
      generalize (w.apply i).shown? r.slot = now at displays shown
      cases displays with
      | kept => exact h.unanswered t r u mine before shown newest
      | first _ _ _ isFor =>
        obtain rfl := Option.some.inj shown
        rw [isFor.mode, isAnswer_firstMode]
      | @answer t' r' fs o _ tick running here current isFor =>
        -- its own task would have taken its exit
        obtain rfl := Option.some.inj shown
        have mine' := (flight.stage (flight.post?_running running)).at_holding.2.1
        obtain rfl := flight.booked.eq_of_mine mine' mine here (isFor.generation.symm.trans newest)
        subst tick
        simp [exitsOn, exits_answered running] at now
    · cases i with
      | tick =>
        obtain ⟨t', fs, doc', text', running, rfl⟩ := mark?_edited (Option.mem_toList.1 new)
        obtain ⟨k, found, -, -, shows⟩ := flight.sane.edit_books running
        obtain ⟨u', last, isFor⟩ := shows r.doc doc
        rw [slot] at found
        rw [shown?_records, show w.apply .tick = w.tick from rfl, found] at shown
        obtain rfl := Option.some.inj (shown.symm.trans last)
        rw [isFor.mode, isAnswer_firstMode]
      | _ => cases new
  · rw [List.length_append, List.countP_append, h.paired, paired]
  · rcases List.mem_append.1 mem with old | new
    · exact (h.accounts t e old).more (flight.sane.apply allowed).ages (fun _ => List.mem_append_left _)
        fun _ => List.mem_append_left _
    · refine conducted.accounts flight allowed isOpen new fun r fs o tick running current => ?_
      obtain ⟨u, shown, isFor⟩ := answers t r fs o tick running current
      exact ⟨u, List.mem_append_right _ shown, isFor⟩

/-! ### Counters -/

theorem count_concluded (w : World) {c : Counter} (counts : e.counter? = some c) : w.concluded.count c = 0 := by
  unfold concluded
  split
  · rename_i o _
    have other : o.counter ≠ c := by
      cases e with
      | superseded | delivered => cases counts
      | abandoned | dropped =>
        cases counts
        cases o <;> simp [Outcome.counter]
    simp [other]
  · rfl

theorem countP_exits_of {op : Op} (running : w.current = some (t, fs, .start op)) {c : Counter}
    (counts : e.counter? = some c) :
    (w.scoresOf op).count c = w.exits.countP (·.2 = e) := by
  cases op with
  | edit doc text =>
    cases waits : w.waiter? doc with
    | none => simp [scoresOf, exits, running, waits]
    | some u => cases e <;> cases counts <;> simp [scoresOf, exits, running, waits]
  | compile text =>
    have other : Counter.started ≠ c := by cases e <;> cases counts <;> simp
    have concluded := w.tick.count_concluded counts
    simp only [scoresOf, exits, running]
    split
    · split
      · simp [other]
      · simp [other, concluded]
    · simp
  | _ => simp [scoresOf, exits, running]

theorem countP_exits_at {f : Frame} (running : w.current = some (t, f :: fs, s)) (ends : s.IsEnd) {c : Counter}
    (counts : e.counter? = some c) : (w.scoresAt s f).count c = w.exits.countP (·.2 = e) := by
  have concluded := w.tick.count_concluded counts
  have other : Counter.errors ≠ c ∧ e ≠ .superseded := by cases e <;> cases counts <;> simp
  cases s with
  | start => exact ends.elim
  | cancelled =>
    have nobody : w.exits = [] := by simp [exits, running]
    rw [nobody]
    cases f <;> simp [scoresAt, Frame.runs, Frame.child?, concluded]
  | fault x =>
    cases f with
    | holding r =>
      rw [exits_answered (o := .error x) running]
      simp only [scoresAt]
      cases w.isCurrent r.slot r.generation <;> cases e <;> cases counts <;> simp
    | _ => simp [scoresAt, exits, running, Frame.runs, Frame.child?, concluded, other.1]
  | value v =>
    cases f with
    | holding r =>
      cases v with
      | outcome o =>
        rw [exits_answered (o := .ok o) running]
        simp only [scoresAt]
        cases w.isCurrent r.slot r.generation <;> cases e <;> cases counts <;> simp
      | _ => simp [scoresAt, exits, running]
    | queueing r => cases current : w.isCurrent r.slot r.generation <;>
        simp [scoresAt, exits, running, Frame.runs, Frame.child?, current, Ne.symm other.2]
    | _ => simp [scoresAt, exits, running, Frame.runs, Frame.child?, concluded]

theorem countP_exits (w : World) {c : Counter} (counts : e.counter? = some c) :
    w.scores.count c = w.exits.countP (·.2 = e) := by
  cases running : w.current with
  | none => simp [scores, exits, running]
  | some p =>
    obtain ⟨t, fs, s⟩ := p
    by_cases ends : s.IsEnd
    · cases fs with
      | nil =>
        cases s with
        | start => exact ends.elim
        | value | fault | cancelled => simp [scores, exits, running]
      | cons f gs =>
        have scored : w.scores = w.scoresAt s f := by
          cases s with
          | start => exact ends.elim
          | value | fault | cancelled => simp [scores, running]
        rw [scored]
        exact countP_exits_at running ends counts
    · cases s with
      | start op =>
        have scored : w.scores = w.scoresOf op := by simp [scores, running]
        rw [scored]
        exact countP_exits_of running counts
      | value | fault | cancelled => exact absurd trivial ends

theorem countP_exitsOn (w : World) (i : Input) {c : Counter} (counts : e.counter? = some c) :
    (w.scored i).count c = (w.exitsOn i).countP (·.2 = e) := by
  cases i with
  | tick => exact w.countP_exits counts
  | _ => rfl

/-! ### Runs -/

theorem notedAlong_sublist (w : World) (inputs : List Input) : (w.notedAlong inputs).Sublist (w.exitsAlong inputs) := by
  induction inputs generalizing w with
  | nil => exact .slnil
  | cons i rest ih =>
    refine List.Sublist.append ?_ (ih _)
    split
    · exact .refl _
    · exact List.nil_sublist _

/-- The counter of an exit has gone up by the number of such exits while measurements were taken. -/
theorem run_noted (h : w.Sane) {inputs : List Input} (allowed : ∀ i ∈ inputs, i.IsPublic) {c : Counter} {n : Nat}
    (counts : e.counter? = some c) (reads : w.metrics.Reads c n) :
    (w.run inputs).metrics.Reads c (n + (w.notedAlong inputs).countP (·.2 = e)) := by
  induction inputs generalizing w n with
  | nil => exact reads
  | cons i rest ih =>
    have step := h.apply_scores i reads
    have run := ih (h.apply (allowed i (by simp))).sane (fun j mem => allowed j (List.mem_cons_of_mem i mem)) step
    have now : (if w.metrics.enabled then (w.scored i).count c else 0) =
        (if w.metrics.enabled then w.exitsOn i else []).countP (·.2 = e) := by
      split
      · exact w.countP_exitsOn i counts
      · rfl
    rw [now] at run
    rw [notedAlong, List.countP_append, ← Nat.add_assoc]
    exact run

theorem isOpen_of_unshut (h : w.Sane) (allowed : i.IsPublic) (unshut : ∀ x, ¬ (w.apply i).IsShut x)
    (x : SlotId) (k : Slot)
    (found : w.records[x]? = some k) : k.isOpen = true := by
  cases isOpen : k.isOpen with
  | true => rfl
  | false => exact absurd (IsShut.mono ⟨k.seat, seat_of_record found, isOpen⟩ (h.apply allowed).ages) (unshut x)

theorem run_audited (flight : Flight ms b w) (launchers : w.Launchers) (conducted : Conducted ms w xs)
    (audited : Audited ms w xs ys) {inputs : List Input} (allowed : ∀ i ∈ inputs, i.IsPublic ∧ ∀ t, i ≠ .cancel t)
    (unshut : ∀ x, ¬ (w.run inputs).IsShut x) :
    Conducted (ms ++ w.marksAlong inputs) (w.run inputs) (xs ++ w.exitsAlong inputs) ∧
      Audited (ms ++ w.marksAlong inputs) (w.run inputs) (xs ++ w.exitsAlong inputs) (ys ++ w.answersAlong inputs) := by
  induction inputs generalizing w ms xs ys with
  | nil => simpa [marksAlong, exitsAlong, answersAlong, run] using ⟨conducted, audited⟩
  | cons i rest ih =>
    obtain ⟨given, calm⟩ := allowed i (by simp)
    have later : ∀ j ∈ rest, j.IsPublic ∧ ∀ t, j ≠ .cancel t := fun j mem => allowed j (List.mem_cons_of_mem i mem)
    have next := flight.apply given
    have unshut' : ∀ x, ¬ (w.apply i).IsShut x := fun x shut =>
      unshut x (shut.mono (next.sane.run fun j mem => (later j mem).1).ages)
    have isOpen := isOpen_of_unshut flight.sane given unshut'
    have := ih next (flight.apply_launchers launchers given) (conducted.apply flight launchers given calm unshut')
      (audited.apply conducted flight given isOpen) later unshut
    simpa [marksAlong, exitsAlong, answersAlong, run, List.append_assoc] using this

theorem run_hired (w : World) (inputs : List Input) : ∀ e ∈ compiling (w.marksAlong inputs), e.worker ≠ none := by
  have kept : ∀ (ms : List Mark) (v : World) (i : Input), (∀ e ∈ compiling ms, e.worker ≠ none) → True →
      ∀ e ∈ compiling (ms ++ v.marks i), e.worker ≠ none := by
    intro ms v i h _ e mem
    obtain ⟨mem, asks⟩ := mem_compiling.1 mem
    rcases List.mem_append.1 mem with old | new
    · exact h e (mem_compiling.2 ⟨old, asks⟩)
    · cases i with
      | tick =>
        obtain ⟨t, fs, doc, text, running, rfl⟩ := mark?_edited (Option.mem_toList.1 new)
        cases doc with
        | name name =>
          have needed : needsCompile text = true := asks
          simp [editBegun, workerFor, needed]
        | number | truth => cases asks
      | _ => cases new
  have first : ∀ e ∈ compiling [], e.worker ≠ none := by simp [compiling]
  exact run_induct (I := fun ms _ => ∀ e ∈ compiling ms, e.worker ≠ none) kept first inputs fun _ _ => trivial

/-- No task works for two edits. -/
theorem Numbered.workers_apart (h : Numbered ms w) (booked : Booked ms w)
    (hired : ∀ e ∈ compiling ms, e.worker ≠ none) :
    (compiling ms).Pairwise fun e e' => e.worker ≠ e'.worker := by
  have ordered : (compiling ms).Pairwise fun e e' => e ≠ e' := by
    refine pairwise_editsWhere (p := fun e => e.asks = true) (h.ordered.imp fun ordered e e' eq eq' same => ?_)
    subst same
    rcases ordered _ _ eq eq' (by simp [DocId.same]) with ⟨-, higher⟩ | ⟨-, other⟩
    · exact Nat.lt_irrefl _ higher
    · exact other rfl
  refine ordered.imp_of_mem fun {e e'} mem mem' other same => ?_
  obtain ⟨t, worker⟩ := Option.ne_none_iff_exists'.1 (hired e mem)
  exact other (booked.single e e' t (mem_compiling.1 mem).1 (mem_compiling.1 mem').1 worker (same ▸ worker))

/-! ### Edits -/

theorem Numbered.newer (h : Numbered ms w) (outdated : w.Outdated r) :
    ∃ e, .edited e ∈ ms ∧ e.slot = r.slot ∧ r.generation < e.generation := by
  have top : w.generationOf r.slot ∈ (editsOf ms r.slot).map (·.generation) := by
    rw [h.counted, List.mem_range'_1]
    have := Nat.lt_of_le_of_lt (Nat.zero_le _) outdated
    omega
  obtain ⟨e, mem, generation⟩ := List.mem_map.1 top
  obtain ⟨edit, slot⟩ := mem_editsOf.1 mem
  exact ⟨e, edit, slot, generation ▸ outdated⟩

namespace Conducted

theorem once (h : Conducted ms w xs) : (xs.map (·.1)).Nodup := by
  refine List.nodup_iff_count_le_one.2 fun t => ?_
  rw [← count_exitsOf]
  by_cases mine : ∃ r, Mine ms t r
  · obtain ⟨r, mine⟩ := mine
    have conduct := h.conduct t r mine
    generalize exitsOf xs t = es at conduct
    cases conduct with
    | awaits | queues | compiles => exact Nat.zero_le _
    | leaves | through => exact Nat.le_refl _
  · rw [exitsOf_nil fun x mem => mine (h.taken t x mem)]
    exact Nat.zero_le _

theorem of_edits (h : Conducted ms w xs) (booked : Booked ms w) (t : TaskId) (x : Exit) (mem : (t, x) ∈ xs) :
    ∃ e ∈ compiling ms, e.worker = some t := by
  obtain ⟨r, e, edit, worker, -, doc, -⟩ := h.taken t x mem
  have needed := booked.needed e t edit worker
  exact ⟨e, mem_compiling.2 ⟨edit, by simp [Edit.asks, doc, needed]⟩, worker⟩

theorem fares (h : Conducted ms w xs) (audited : Audited ms w xs ys) (flight : Flight ms b w) (numbered : Numbered ms w)
    {e : Edit} (edit : .edited e ∈ ms) (worker : e.worker = some t) {name : String} (doc : e.doc = .name name) :
    Fares ms w xs ys e := by
  let r : Request := ⟨e.slot, name, e.generation, e.text⟩
  have mine : Mine ms t r := ⟨e, edit, worker, rfl, doc, rfl, rfl⟩
  have of_t := Edit.fate_of_worker worker xs
  have conduct := h.conduct t r mine
  have account {x : Exit} (fate : exitsOf xs t = [x]) : Accounts ms w ys t x :=
    audited.accounts t x (mem_exitsOf.1 (by simp [fate]))
  have only {q : Request} (other : Mine ms t q) : q = r := flight.booked.request_unique other mine
  generalize fate : exitsOf xs t = es at conduct
  have nobody (barren : w.Barren t) : ∀ p ∈ w.processes, e.worker ≠ some p.owner := fun p mem own =>
    barren p mem (Option.some.inj (own.symm.trans worker))
  cases conduct with
  | awaits _ _ _ carrier | queues carrier | compiles _ carrier =>
    exact .working worker (of_t.trans fate) carrier.carries (carrier.carries.out flight)
  | leaves _ barren _ early =>
    rcases early with rfl | rfl
    · cases account fate with
      | abandoned mine' outdated =>
        exact .abandoned (of_t.trans fate) (nobody barren) (numbered.newer (only mine' ▸ outdated))
    · cases account fate with
      | superseded mine' outdated =>
        exact .superseded (of_t.trans fate) (nobody barren) (numbered.newer (only mine' ▸ outdated))
  | through _ _ started _ late =>
    obtain ⟨time, started⟩ := started
    rcases late with rfl | rfl
    · cases account fate with
      | dropped mine' outdated ended =>
        obtain rfl := only mine'
        exact .dropped (of_t.trans fate) (.compiled worker started ended) (numbered.newer outdated)
    · cases account fate with
      | delivered mine' ended shown isFor =>
        obtain rfl := only mine'
        exact .delivered (of_t.trans fate) (isFor.mode ▸ .compiled worker started ended) shown (isFor.mode.symm ▸ isFor)

end Conducted

/-- In a run in which no document is closed and nobody from outside cancels a task: an edit whose text has to be
compiled is being worked for; or its task has taken exactly one exit. Either a newer edit came while the task waited for
quiet, or while it waited for the lock, and no process was started for it; or its text was compiled, which a newer edit
made useless, or which was shown. Once the tasks of its slot have ended each edit has taken its exit. The counters
of abandoned and of dropped edits have gone up by the number of edits that took those exits while measurements were
taken, and as many answers of the compiler have been shown as edits have been delivered. -/
theorem requests_conserved {start : World} (new : start.IsNew) {inputs : List Input}
    (allowed : ∀ i ∈ inputs, i.IsPublic ∧ ∀ t, i ≠ .cancel t) (unshut : ∀ x, ¬ (start.run inputs).IsShut x) :
    (∀ e ∈ compiling (start.marksAlong inputs), Fares (start.marksAlong inputs) (start.run inputs)
      (start.exitsAlong inputs) (start.answersAlong inputs) e) ∧
    (∀ e ∈ compiling (start.marksAlong inputs), (∀ t ∈ (start.run inputs).tasksOf e.slot,
      (start.run inputs).hasEnded t = true) → ∃ x, e.fate (start.exitsAlong inputs) = [x]) ∧
    (∀ n, start.metrics.Reads .abandoned n → (start.run inputs).metrics.Reads .abandoned
      (n + (compiling (start.marksAlong inputs)).countP fun e => e.fate (start.notedAlong inputs) = [.abandoned])) ∧
    (∀ n, start.metrics.Reads .dropped n → (start.run inputs).metrics.Reads .dropped
      (n + (compiling (start.marksAlong inputs)).countP fun e => e.fate (start.notedAlong inputs) = [.dropped])) ∧
    (start.answersAlong inputs).length =
      (compiling (start.marksAlong inputs)).countP fun e => e.fate (start.exitsAlong inputs) = [.delivered] := by
  have given : ∀ i ∈ inputs, i.IsPublic := fun i mem => (allowed i mem).1
  have flight := run_flight new given
  have numbered := run_numbered new given
  have roster := run_roster new given
  have hired := run_hired start inputs
  have nobody : start.Launchers := fun k mem => by simp [new.processes] at mem
  have blank : Audited [] start [] [] := by
    refine ⟨?_, rfl, nofun⟩
    rintro t r u ⟨e, edit, -⟩
    cases edit
  obtain ⟨conducted, audited⟩ := run_audited new.flight nobody new.conducted blank allowed unshut
  simp only [List.nil_append] at conducted audited
  have apart := numbered.workers_apart flight.booked hired
  have fares : ∀ e ∈ compiling (start.marksAlong inputs), Fares (start.marksAlong inputs) (start.run inputs)
      (start.exitsAlong inputs) (start.answersAlong inputs) e := by
    intro e mem
    obtain ⟨edit, asks⟩ := mem_compiling.1 mem
    obtain ⟨t, worker⟩ := Option.ne_none_iff_exists'.1 (hired e mem)
    cases doc : e.doc with
    | name name => exact conducted.fares audited flight numbered edit worker doc
    | number | truth => simp [Edit.asks, doc] at asks
  have noted := start.notedAlong_sublist inputs
  have counted {x : Exit} {c : Counter} (counts : x.counter? = some c) (n : Nat) (reads : start.metrics.Reads c n) :
      (start.run inputs).metrics.Reads c
        (n + (compiling (start.marksAlong inputs)).countP fun e => e.fate (start.notedAlong inputs) = [x]) := by
    rw [← countP_fate apart hired (conducted.once.sublist (noted.map _))
      (fun t y mem => conducted.of_edits flight.booked t y (noted.subset mem)) x]
    exact run_noted new.sane given counts reads
  refine ⟨fares, fun e mem ended => ?_, counted rfl, counted rfl, ?_⟩
  · cases fares e mem with
    | working worker _ carries out =>
      rw [ended _ (carries.listed flight roster (mem_compiling.1 mem).1 worker)] at out
      cases out
    | abandoned fate | superseded fate | dropped fate | delivered fate => exact ⟨_, fate⟩
  · rw [audited.paired]
    exact countP_fate apart hired conducted.once (fun t y mem => conducted.of_edits flight.booked t y mem) _

/-- Two edits of a document, the second before the first has rested. -/
def retyping : List Input :=
  [Input.queue (.edit (.name "a") "Hi"), .queue (.edit (.name "a") "Ho")] ++ List.replicate 30 Input.tick

theorem calm_retyping : ∀ i ∈ retyping, i.IsPublic ∧ ∀ t, i ≠ .cancel t := by
  simp [retyping, Input.IsPublic, Op.IsPublic.edit, or_imp, forall_and]

theorem unshut_retyping (x : SlotId) : ¬ (sample.run retyping).IsShut x := by
  rintro ⟨a, found, shut⟩
  have seats : (sample.run retyping).seats = [⟨.name "a", true, 2⟩] := rfl
  rw [seats] at found
  obtain rfl := List.mem_singleton.1 (List.mem_of_getElem? found)
  cases shut

/-- Of two edits in a row one gives way, which is counted, and one is delivered. -/
theorem retyping_conserved : (sample.run retyping).metrics.Reads .abandoned 1 ∧
    (sample.answersAlong retyping).length = 1 := by
  obtain ⟨-, -, abandoned, -, answers⟩ := requests_conserved isNew_sample calm_retyping unshut_retyping
  have gives : ((compiling (sample.marksAlong retyping)).countP fun e =>
      e.fate (sample.notedAlong retyping) = [.abandoned]) = 1 := by decide
  have stays : ((compiling (sample.marksAlong retyping)).countP fun e =>
      e.fate (sample.exitsAlong retyping) = [.delivered]) = 1 := by decide
  have reads := abandoned 0 rfl
  rw [gives] at reads
  exact ⟨reads, answers.trans stays⟩

/-- Without measurements the edit that gives way is not counted, though all tasks have ended. -/
theorem abandoned_uncounted :
    ((compiling (sample.marksAlong (.enableMetrics false :: retyping))).countP fun e =>
      e.fate (sample.exitsAlong (.enableMetrics false :: retyping)) = [.abandoned]) = 1 ∧
    (∀ k ∈ (sample.run (.enableMetrics false :: retyping)).slots, k.isOpen = true ∧ k.tasks = []) ∧
    (sample.run (.enableMetrics false :: retyping)).metrics.Reads .abandoned 0 ∧
    ¬ (sample.run (.enableMetrics false :: retyping)).metrics.Reads .abandoned 1 := by
  have reads : (sample.run (.enableMetrics false :: retyping)).metrics.Reads .abandoned 0 := rfl
  refine ⟨by decide, by decide, reads, fun one => ?_⟩
  exact absurd (reads.symm.trans one) (by decide)

end
end World
end Live
end InkPreview
