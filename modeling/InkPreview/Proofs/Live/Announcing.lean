import InkPreview.Proofs.Live.Convergence
import InkPreview.Proofs.Live.Retired
import InkPreview.Proofs.Live.Stacks
/-!
Announcements. Subscribers begin to be told of an update as an edit begins, or as the answer of its compile is
settled. An update is announced at most once, and a task that tells of it has announced it. Main statements:
`Flight.announces_new`, `Flight.apply_unheard` and `run_traced`.
-/
namespace InkPreview.Live

/-- The subscribers that a frame has still to tell of the update. -/
def Frame.unheard? (u : Update) : Frame → Option (List Nat)
  | .notifying v js => if v = u then some js else none
  | _ => none

/-- The subscribers that the frames have still to tell of the update, one list for each time it is told. -/
def unheard (u : Update) (fs : List Frame) : List (List Nat) := fs.filterMap (Frame.unheard? u)

/-- An edit begins, or the compiler has answered a request. -/
inductive Spreads : List Frame → Signal → Prop
  | edit {fs : List Frame} {name text : String} : Spreads fs (.start (.edit (.name name) text))
  | answer {r : Request} {fs : List Frame} {o : Except Fault Outcome} : Spreads (.holding r :: fs) (answerSignal o)

section
variable {y : Update} {fs gs pushed : List Frame} {s : Signal} {l : Landing}

theorem unheard_append : unheard y (fs ++ gs) = unheard y fs ++ unheard y gs := List.filterMap_append

theorem unheard_cons {f : Frame} (none : f.unheard? y = none) : unheard y (f :: fs) = unheard y fs :=
  List.filterMap_cons_none none

theorem unheard_told {js : List Nat} : unheard y (.notifying y js :: fs) = js :: unheard y fs := by
  simp [unheard, Frame.unheard?]

theorem unheard_other {v : Update} {js : List Nat} (other : v ≠ y) : unheard y (.notifying v js :: fs) = unheard y fs :=
  unheard_cons (if_neg other)

theorem mem_unheard {js : List Nat} (h : js ∈ unheard y fs) : .notifying y js ∈ fs := by
  obtain ⟨f, mem, of_f⟩ := List.mem_filterMap.1 h
  cases f with
  | notifying v ks =>
    obtain ⟨rfl, rfl⟩ : v = y ∧ ks = js := by simpa [Frame.unheard?] using of_f
    exact mem
  | _ => cases of_f

theorem unheard_simple (simple : ∀ f ∈ pushed, f.IsSimple) : unheard y (pushed ++ fs) = unheard y fs := by
  have none : unheard y pushed = [] := by
    refine List.eq_nil_iff_forall_not_mem.2 fun js mem => ?_
    exact simple _ (mem_unheard mem)
  rw [unheard_append, none, List.nil_append]

/-! ### Who goes on telling -/

theorem Op.Lands.unheard_eq {op : Op} {n : TaskId} (h : op.Lands n fs l) : unheard y l.frames = unheard y fs := by
  cases h with
  | opens h => exact unheard_simple h.simple.1
  | waits h => exact unheard_simple h.simple
  | turn h => exact unheard_simple h.simple
  | timed h => exact unheard_simple h.simple
  | limited => rfl
  | answers h => exact unheard_simple h.simple.1

namespace World
variable {w : World} {t u : TaskId} {ks : List Slot} {ms : List Mark} {b : Bench} {i : Input}

theorem Acted.unheard_eq {j : Nat} {v : Update} {todo : List Action} (h : Acted j v todo fs l) :
    unheard y l.frames = unheard y fs := by
  cases h <;> rfl

theorem Killed.unheard_eq {p : ProcessId} {why : KillReason} (h : Killed p why fs l) :
    unheard y l.frames = unheard y fs := by
  cases h <;> rfl

theorem Told.unheard_eq {v : Update} {js : List Nat} (h : Told w v fs js l) (other : v ≠ y) :
    unheard y l.frames = unheard y fs := by
  have same : ∀ {js : List Nat}, unheard y (.notifying v js :: fs) = unheard y fs :=
    unheard_other other
  cases h with
  | through | stale => rfl
  | script _ _ acted => exact acted.unheard_eq.trans same
  | clients => exact (unheard_cons rfl).trans same
  | nobody => exact same

/-- A turn that is not about the update leaves the subscribers to be told of it. -/
theorem Turn.unheard_eq (h : Turn w fs s l) (busy : s.IsEnd → ∀ js rest, fs ≠ .notifying y js :: rest) :
    unheard y l.frames = unheard y fs := by
  cases h with
  | done => rfl
  | begins h => exact h.unheard_eq
  | opens _ h =>
    refine (unheard_simple h.simple.1).trans (unheard_cons ?_).symm
    cases h <;> rfl
  | waits _ h =>
    refine (unheard_simple h.simple).trans (unheard_cons ?_).symm
    cases h <;> rfl
  | @pops f _ _ _ plain =>
    refine (unheard_cons ?_).symm
    cases f with
    | notifying => exact plain.elim
    | _ => rfl
  | @told v js _ _ _ ends _ h =>
    have other : v ≠ y := by
      rintro rfl
      exact busy ends js _ rfl
    exact (h.unheard_eq other).trans (unheard_other other).symm
  | @untold v js rest =>
    have other : v ≠ y := by
      rintro rfl
      exact busy trivial js _ rfl
    exact (unheard_other other).symm
  | acted h => exact h.unheard_eq
  | killed h | reaped h | lost _ _ h => exact h.unheard_eq
  | killedNow hf h =>
    refine h.unheard_eq.trans (unheard_cons ?_).symm
    rcases hf with rfl | ⟨why, rfl⟩
    · rfl
    · rfl
  | faulted hf =>
    refine (unheard_cons ?_).symm
    obtain ⟨p, rfl | ⟨f, rfl⟩ | ⟨why, rfl | rfl⟩⟩ := hf
    all_goals rfl
  | failed | stopped | ran | waited | late | hurried | heeded | unreaped => rfl

/-- A step that is not about the update, and does not announce it, leaves the subscribers to be told of it. -/
theorem Next.unheard_eq (h : Next w t fs s l ks) (busy : s.IsEnd → ∀ js rest, fs ≠ .notifying y js :: rest)
    (silent : Spreads fs s → ∀ base,
      l ≠ .go (.notifying y (List.range w.subscribers.length) :: base) (.value .unit)) :
    unheard y l.frames = unheard y fs := by
  cases h with
  | turn _ h => exact h.unheard_eq busy
  | @edits _ name text v e begun shown =>
    have other : v ≠ y := by
      rintro rfl
      exact silent .edit _ rfl
    exact (unheard_other other).trans (unheard_cons rfl)
  | @settles _ r _ o v answered current shown =>
    have other : v ≠ y := by
      rintro rfl
      exact silent (answered ▸ .answer) _ rfl
    exact (unheard_other other).trans (unheard_cons rfl).symm
  | closes h => cases h <;> rfl
  | rests h =>
    rcases h with rfl | ⟨n, rfl⟩
    · rfl
    · rfl
  | quieted h =>
    rcases h with ⟨-, rfl⟩ | ⟨-, rfl | rfl⟩
    all_goals rfl
  | called h =>
    rcases h with ⟨-, rfl⟩ | ⟨-, rfl⟩
    all_goals rfl
  | breaks h =>
    rcases h with rfl | rfl
    · rfl
    · rfl
  | misnamed | abandons | leaves | drops | lets => rfl

/-! ### Announcements -/

/-- In the next step all subscribers begin to be told of the update, above the frames `base`. -/
def Announces (w : World) (t : TaskId) (y : Update) (base : List Frame) : Prop :=
  ∃ fs s, w.current = some (t, fs, s) ∧ Spreads fs s ∧
    w.tick.current = some (t, .notifying y (List.range w.subscribers.length) :: base, .value .unit)

/-- What an announcement comes of: an edit, or the answer of a compile whose edit still counts. -/
inductive Announced (w : World) (t : TaskId) (y : Update) : List Frame → Prop
  | edit {fs : List Frame} {name text : String} {e : Edit}
      (running : w.current = some (t, fs, .start (.edit (.name name) text)))
      (begun : e = w.editBegun (.name name) text) (shown : y.IsFor e.slot name e.generation (firstMode text)) :
      Announced w t y (.issued e.generation :: fs)
  | answer {r : Request} {o : Except Fault Outcome} (running : w.current = some (t, [.holding r], answerSignal o))
      (current : w.isCurrent r.slot r.generation = true) (shown : y.IsFor r.slot r.doc r.generation (answerMode o)) :
      Announced w t y []

theorem Flight.announced (h : Flight ms b w) {base : List Frame} (announces : w.Announces t y base) :
    w.Announced t y base := by
  obtain ⟨fs, s, running, spreads, tells⟩ := announces
  obtain ⟨x, l, -, next, eq, -⟩ := h.tick_stack running
  rw [eq, land_current] at tells
  obtain ⟨-, rfl⟩ := Landing.now_eq tells
  generalize x.records = ks at next
  cases spreads with
  | @edit fs name text =>
    cases next with
    | turn aside => exact absurd rfl (aside.2.1 _ _)
    | edits begun shown => exact .edit running begun shown
    | @settles _ _ _ o _ answered =>
      have ends := answerSignal_end o
      rw [← answered] at ends
      exact ends.elim
    | drops ends => exact ends.elim
  | @answer r rest o =>
    obtain ⟨rfl, -⟩ := (h.stage (h.post?_running running)).at_holding
    have ends := answerSignal_end o
    generalize answered : answerSignal o = s at next ends
    cases next with
    | turn aside => cases aside.plain ends
    | settles answered' current shown =>
      obtain rfl := answerSignal_inj (answered.trans answered')
      exact .answer running current shown
    | edits | closes | rests => exact ends.elim

/-! ### What an update comes from -/

/-- The update comes from an edit, or from the answer that its task has had. -/
inductive Sourced (ms : List Mark) (w : World) (y : Update) : Prop
  | edit {e : Edit} (mem : .edited e ∈ ms) (slot : e.slot = y.slot) (generation : e.generation = y.generation)
      (mode : y.mode = firstMode e.text)
  | answer {t : TaskId} {r : Request} (mine : Mine ms t r) (slot : r.slot = y.slot)
      (generation : r.generation = y.generation) (mode : y.mode ≠ .pending)
      (ceased : ∃ q, w.post? t = some q ∧ q.IsRetired)

theorem Sourced.apply (sourced : Sourced ms w y) (h : Flight ms b w) (allowed : i.IsPublic) :
    Sourced (ms ++ w.marks i) (w.apply i) y := by
  cases sourced with
  | edit mem slot generation mode => exact .edit (List.mem_append_left _ mem) slot generation mode
  | answer mine slot generation mode ceased =>
    obtain ⟨q, found, retired⟩ := ceased
    exact .answer (mine_more mine) slot generation mode (h.apply_retired allowed found retired)

/-- An edit whose text needs the compiler shows first that it is pending. -/
theorem firstMode_pending {text : String} (needed : needsCompile text = true) : firstMode text = .pending := by
  have unclassified : classify text = none := by simpa [needsCompile] using needed
  rw [firstMode, unclassified]
  rfl

/-- An edit has a higher generation than all that its slot has had. -/
theorem Flight.edit_late (h : Flight ms b w) {doc : DocId} {text : String} {e : Edit} (mem : .edited e ∈ ms)
    (slot : e.slot = (w.editBegun doc text).slot) : e.generation < (w.editBegun doc text).generation := by
  obtain ⟨a, at_slot, le⟩ := h.booked.numbered e mem
  exact Nat.lt_of_le_of_lt le (editBegun_raises w doc text (slot ▸ at_slot))

/-- What is announced is new. -/
theorem Flight.announces_new (h : Flight ms b w) {base : List Frame} (announces : w.Announces t y base) :
    ¬ Sourced ms w y := by
  intro sourced
  have eq_of_edit : ∀ {e e' : Edit}, .edited e ∈ ms → .edited e' ∈ ms → e.slot = e'.slot →
      e.generation = e'.generation → e = e' := by
    intro e e' mem mem' slot generation
    exact (h.booked.rising e.slot).eq (mem_editsOf.2 ⟨mem, rfl⟩) (mem_editsOf.2 ⟨mem', slot.symm⟩) generation
  cases h.announced announces with
  | @edit fs name text e running begun shown =>
    have late : ∀ e' : Edit, .edited e' ∈ ms → e'.slot = y.slot → e'.generation ≠ y.generation := by
      intro e' mem slot generation
      subst begun
      have lower := h.edit_late mem (slot.trans shown.slot)
      rw [generation, shown.generation] at lower
      exact absurd lower (Nat.lt_irrefl _)
    cases sourced with
    | edit mem slot generation => exact late _ mem slot generation
    | answer mine slot generation =>
      obtain ⟨e', mem, -, slot', -, generation', -⟩ := mine
      exact late e' mem (slot'.trans slot) (generation'.trans generation)
  | @answer r o running current shown =>
    have post := h.post?_running running
    obtain ⟨-, mine, -⟩ := (h.stage post).at_holding
    cases sourced with
    | @edit e mem slot generation mode =>
      obtain ⟨e', mem', worker, slot', -, generation', -⟩ := mine
      obtain rfl := eq_of_edit mem mem' (slot.trans (shown.slot.trans slot'.symm))
        (generation.trans (shown.generation.trans generation'.symm))
      rw [firstMode_pending (h.booked.needed e t mem worker), shown.mode] at mode
      exact answerMode_ne_pending o mode
    | @answer u r' mine' slot generation _ ceased =>
      obtain rfl := h.booked.eq_of_mine mine mine' (shown.slot.symm.trans slot.symm)
        (shown.generation.symm.trans generation.symm)
      obtain ⟨q, found, retired⟩ := ceased
      obtain rfl := Option.some.inj (post.symm.trans found)
      exact retired r ⟨rfl, nofun⟩

/-- What has been announced has a source. -/
theorem Flight.announces_sourced (h : Flight ms b w) {base : List Frame} (announces : w.Announces t y base) :
    Sourced (ms ++ w.marks .tick) w.tick y := by
  cases h.announced announces with
  | @edit fs name text e running begun shown =>
    have marked : .edited e ∈ ms ++ w.marks .tick := by simp [marks, mark?, running, begun]
    exact .edit marked shown.slot.symm shown.generation.symm (by rw [begun]; exact shown.mode)
  | @answer r o running current shown =>
    obtain ⟨-, mine, -⟩ := (h.stage (h.post?_running running)).at_holding
    have next : Flight (ms ++ w.marks .tick) b w.tick := h.apply (i := .tick) trivial
    obtain ⟨-, -, -, -, tells⟩ := announces
    refine .answer (mine_more mine) shown.slot.symm shown.generation.symm ?_ ⟨_, next.post?_running tells, ?_⟩
    · rw [shown.mode]
      exact answerMode_ne_pending o
    · exact Post.isRetired_plain (by simp [Plain, Frame.request?]) (by simp)

/-! ### Who tells -/

/-- The running task tells of the update, or announces it. -/
def Heralds (w : World) (t : TaskId) (y : Update) : Prop :=
  (∃ js fs s, w.current = some (t, .notifying y js :: fs, s) ∧ s.IsEnd) ∨ ∃ base, w.Announces t y base

/-- Otherwise the subscribers that a task has still to tell of it stay the same. -/
theorem Flight.apply_unheard (h : Flight ms b w) (allowed : i.IsPublic) (other : i = .tick → ¬ w.Heralds u y) :
    unheard y ((w.apply i).stackOf u) = unheard y (w.stackOf u) := by
  by_cases steps : w.Steps i u
  · obtain ⟨rfl, fs, s, running⟩ := steps
    obtain ⟨x, l, -, next, eq, stack⟩ := h.tick_stack running
    rw [show w.apply .tick = w.tick from rfl, stack, stackOf_running running]
    refine next.unheard_eq ?_ ?_
    · rintro ends js rest rfl
      exact other rfl (.inl ⟨js, rest, s, running, ends⟩)
    · rintro spreads base rfl
      exact other rfl (.inr ⟨base, fs, s, running, spreads, by rw [eq, land_current]; rfl⟩)
  · rw [h.apply_stack allowed steps]

/-- A task that tells of an update, or has told of it, tells of what has a source. -/
structure Traced (ms : List Mark) (w : World) : Prop where
  telling : ∀ u y, unheard y (w.stackOf u) ≠ [] → Sourced ms w y
  told : ∀ j y, .called j y ∈ ms → Sourced ms w y

theorem IsNew.traced (new : w.IsNew) : Traced [] w where
  telling u y tells := by simp [stackOf, new.current, new.tasks, unheard] at tells
  told := nofun

theorem Flight.apply_traced (h : Flight ms b w) (traced : Traced ms w) (allowed : i.IsPublic) :
    Traced (ms ++ w.marks i) (w.apply i) := by
  refine ⟨fun u y tells => ?_, fun j y mem => ?_⟩
  · by_cases heralds : i = .tick ∧ w.Heralds u y
    · obtain ⟨rfl, ⟨js, fs, s, running, -⟩ | ⟨base, announces⟩⟩ := heralds
      · refine (traced.telling u y ?_).apply h allowed
        simp [stackOf_running running, unheard_told]
      · exact h.announces_sourced announces
    · rw [h.apply_unheard allowed fun tick herald => heralds ⟨tick, herald⟩] at tells
      exact (traced.telling u y tells).apply h allowed
  · rcases List.mem_append.1 mem with old | new
    · exact (traced.told j y old).apply h allowed
    · cases i with
      | tick =>
        obtain ⟨t, js, fs, s, running, -⟩ := mark?_called (by simpa [marks] using new)
        refine (traced.telling t y ?_).apply h allowed
        simp [stackOf_running running, unheard_told]
      | _ => cases new

theorem run_traced (new : w.IsNew) {inputs : List Input} (allowed : ∀ i ∈ inputs, i.IsPublic) :
    Traced (w.marksAlong inputs) (w.run inputs) := by
  have kept : ∀ (ms : List Mark) (v : World) (i : Input), Flight ms (w.bench none) v ∧ Traced ms v → i.IsPublic →
      Flight (ms ++ v.marks i) (w.bench none) (v.apply i) ∧ Traced (ms ++ v.marks i) (v.apply i) :=
    fun _ _ _ h given => ⟨h.1.apply given, h.1.apply_traced h.2 given⟩
  exact (run_induct (I := fun ms v => Flight ms (w.bench none) v ∧ Traced ms v) kept ⟨new.flight, new.traced⟩ inputs
    allowed).2

end World
end
end InkPreview.Live
