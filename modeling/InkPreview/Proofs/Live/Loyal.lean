import InkPreview.Proofs.Live.Enlisted
import InkPreview.Proofs.Live.Followers
import InkPreview.Proofs.Live.Sparing
/-!
Loyal runs, in which subscribers ask for nothing but edits and the closing of the document they are told of. While a
slot is open, the task of an edit of it does nothing but compile the text and tell of updates of the slot; so it waits
for no group, and cancelling it cancels no other task. Main statements: `run_ready` and `Ready.move_unasked`.
-/
namespace InkPreview.Live

/-- What a subscriber does that asks for nothing but to edit or close the document it is told of. -/
def Action.IsLocal : Action → Prop
  | .ask _ => False
  | _ => True

def Subscriber.IsLocal : Subscriber → Prop
  | .script acts => ∀ n, ∀ a ∈ acts n, a.IsLocal
  | .clients => True

/-- A frame of the work for an edit of the slot. -/
def Frame.WorksFor (x : SlotId) : Frame → Prop
  | .notifying y _ => y.slot = x
  | .acting _ y todo => y.slot = x ∧ ∀ a ∈ todo, a.IsLocal
  | .quiet r | .queueing r | .holding r => r.slot = x
  | .issued _ | .broadcasting .. | .sending .. | .running _ | .limited .. | .stoppingFollower .. | .following _ |
    .reaping .. => True
  | _ => False

/-- What such work begins. -/
def Op.WorksFor (seats : List Seat) (x : SlotId) : Op → Prop
  | .edit doc _ | .close doc => ∃ name, doc = .name name ∧ World.Serves seats x name
  | .background r => r.slot = x
  | .compile _ | .send .. | .follow _ => True
  | _ => False

/-- A task that is there is at work for an edit of the slot, unless it has ended. -/
structure Post.WorksFor (seats : List Seat) (x : SlotId) (q : Post) : Prop where
  frames : ∀ f ∈ q.frames, f.WorksFor x
  begins : q.wait ≠ .ended → ∀ op, q.signal = .start op → op.WorksFor seats x

/-- A landing that goes on with the work for an edit of the slot. -/
structure Landing.WorksFor (seats : List Seat) (x : SlotId) (l : Landing) : Prop where
  frames : ∀ f ∈ l.frames, f.WorksFor x
  begins : ∀ gs op, l = .go gs (.start op) → op.WorksFor seats x

section
variable {seats : List Seat} {x : SlotId} {fs pushed : List Frame} {l : Landing} {op op' : Op} {s : Signal}

namespace Landing.WorksFor

theorem go (frames : ∀ f ∈ fs, f.WorksFor x) (ends : s.IsEnd) : (Landing.go fs s).WorksFor seats x := by
  refine ⟨frames, ?_⟩
  rintro gs op eq
  obtain ⟨-, rfl⟩ := Landing.go.inj eq
  exact ends.elim

theorem call (frames : ∀ f ∈ fs, f.WorksFor x) (begins : op.WorksFor seats x) :
    (Landing.go fs (.start op)).WorksFor seats x := by
  refine ⟨frames, ?_⟩
  rintro gs op' eq
  obtain ⟨-, same⟩ := Landing.go.inj eq
  obtain rfl := Signal.start.inj same
  exact begins

theorem park {wait : Wait} (frames : ∀ f ∈ fs, f.WorksFor x) : (Landing.park fs wait).WorksFor seats x :=
  ⟨frames, nofun⟩

theorem turn (frames : ∀ f ∈ fs, f.WorksFor x) : (Landing.turn fs).WorksFor seats x := ⟨frames, nofun⟩

theorem timed {wait : Wait} {n : Nat} (frames : ∀ f ∈ fs, f.WorksFor x) : (Landing.timed fs wait n).WorksFor seats x :=
  ⟨frames, nofun⟩

end Landing.WorksFor

theorem Op.WorksFor.mono {seats' : List Seat} (h : op.WorksFor seats x) (ages : Ages seats seats') :
    op.WorksFor seats' x := by
  cases op with
  | edit | close =>
    obtain ⟨name, eq, serves⟩ := h
    exact ⟨name, eq, serves.mono ages⟩
  | background => exact h
  | compile | send | follow => trivial
  | _ => exact h.elim

/-! ### What the work leads to -/

theorem Op.Opens.worksFor (h : op.Opens pushed op') (works : op.WorksFor seats x) :
    (∀ f ∈ pushed, f.WorksFor x) ∧ op'.WorksFor seats x := by
  cases h with
  | compile => exact ⟨by simp [Frame.WorksFor], trivial⟩
  | _ => exact works.elim

theorem Op.Waits.worksFor {wait : Wait} (h : op.Waits pushed wait) (works : op.WorksFor seats x) :
    ∀ f ∈ pushed, f.WorksFor x := by
  cases h with
  | compile => simp [Frame.WorksFor]
  | _ => exact works.elim

theorem Op.Sleeps.worksFor (h : op.Sleeps pushed) : ∀ f ∈ pushed, f.WorksFor x := by
  cases h <;> simp [Frame.WorksFor]

theorem Op.Answers.worksFor (h : op.Answers pushed s) (works : op.WorksFor seats x) : ∀ f ∈ pushed, f.WorksFor x := by
  cases h with
  | request | together => exact works.elim
  | _ => exact List.forall_mem_nil _

theorem Op.Lands.worksFor {new : TaskId} (h : op.Lands new fs l) (works : op.WorksFor seats x)
    (frames : ∀ f ∈ fs, f.WorksFor x) : l.WorksFor seats x := by
  cases h with
  | opens h => exact .call (all_append (h.worksFor works).1 frames) (h.worksFor works).2
  | waits h => exact .park (all_append (h.worksFor works) frames)
  | turn h => exact .turn (all_append h.worksFor frames)
  | timed h => exact .timed (all_append h.worksFor frames)
  | limited => exact .timed (all_cons trivial frames)
  | answers h => exact .go (all_append (h.worksFor works) frames) h.simple.2

namespace World
variable {w : World} {t : TaskId} {ks : List Slot}

theorem Acted.worksFor {i : Nat} {y : Update} {todo : List Action} (h : Acted i y todo fs l)
    (locals : ∀ a ∈ todo, a.IsLocal) (here : y.slot = x) (serves : Serves seats y.slot y.doc)
    (frames : ∀ f ∈ fs, f.WorksFor x) : l.WorksFor seats x := by
  have acting : ∀ {rest : List Action}, rest <:+ todo → ∀ f ∈ Frame.acting i y rest :: fs, f.WorksFor x :=
    fun shorter => all_cons ⟨here, fun a mem => locals a (shorter.subset mem)⟩ frames
  cases h with
  | through | fails => exact .go frames trivial
  | turn h => exact .turn (acting h)
  | timed h => exact .timed (acting h)
  | edits h | closes h => exact .call (acting h) ⟨y.doc, rfl, here ▸ serves⟩
  | asks _ mem => exact (locals _ mem).elim
  | skips h => exact .go (acting h) trivial

theorem Told.worksFor {y : Update} {js : List Nat} (h : Told w y fs js l) (locals : ∀ z ∈ w.subscribers, z.IsLocal)
    (here : y.slot = x) (serves : Serves seats y.slot y.doc) (frames : ∀ f ∈ fs, f.WorksFor x) :
    l.WorksFor seats x := by
  have telling : ∀ js, ∀ f ∈ Frame.notifying y js :: fs, f.WorksFor x := fun _ => all_cons here frames
  cases h with
  | through | stale => exact .go frames trivial
  | script _ mem acted => exact acted.worksFor (locals _ (List.mem_of_getElem? mem) _) here serves (telling _)
  | clients => exact .go (all_cons trivial (telling _)) trivial
  | nobody => exact .go (telling _) trivial

theorem Killed.worksFor {p : ProcessId} {why : KillReason} (h : Killed p why fs l) (frames : ∀ f ∈ fs, f.WorksFor x) :
    l.WorksFor seats x := by
  cases h with
  | timedOut | cancelled => exact .go frames trivial
  | turn => exact .turn (all_cons trivial frames)
  | timed => exact .timed (all_cons trivial frames)

theorem Turn.worksFor (h : Turn w fs s l) (locals : ∀ y ∈ w.subscribers, y.IsLocal) (fits : AllFit seats fs)
    (frames : ∀ f ∈ fs, f.WorksFor x) (begins : ∀ op, s = .start op → op.WorksFor seats x) : l.WorksFor seats x := by
  have below : ∀ {f : Frame} {fs : List Frame}, (∀ g ∈ f :: fs, g.WorksFor x) → ∀ g ∈ fs, g.WorksFor x :=
    fun all g hg => all g (List.mem_cons_of_mem _ hg)
  have top : ∀ {f : Frame} {fs : List Frame}, (∀ g ∈ f :: fs, g.WorksFor x) → f.WorksFor x :=
    fun all => all _ List.mem_cons_self
  cases h with
  | done => exact ⟨nofun, nofun⟩
  | begins h => exact h.worksFor (begins _ rfl) frames
  | opens _ h =>
    cases h with
    | broadcasting => exact .call (all_cons trivial (below frames)) trivial
    | _ => exact (top frames).elim
  | waits _ h => cases h <;> exact (top frames).elim
  | pops _ _ ends => exact .go (below frames) ends
  | told _ _ h => exact h.worksFor locals (top frames) fits.top (below frames)
  | acted h => exact h.worksFor (top frames).2 (top frames).1 fits.top.1 (below frames)
  | late | hurried => exact .park (all_cons trivial (below frames))
  | killed h | reaped h | killedNow _ h | lost _ _ h => exact h.worksFor (below frames)
  | untold | failed | stopped | ran | waited | heeded | unreaped | faulted => exact .go (below frames) trivial

/-- A task that works for an edit of an open slot goes on with that, unless it closes the document. -/
theorem Next.worksFor (h : Next w t fs s l ks) (distinct : Distinct w.seats) (locals : ∀ y ∈ w.subscribers, y.IsLocal)
    (fits : AllFit w.seats fs) (isOpen : ∀ a, w.seats[x]? = some a → a.isOpen = true)
    (unclosed : ∀ doc, s ≠ .start (.close doc))
    (frames : ∀ f ∈ fs, f.WorksFor x) (begins : ∀ op, s = .start op → op.WorksFor w.seats x) :
    l.WorksFor w.seats x := by
  have below : ∀ {f : Frame} {fs : List Frame}, (∀ g ∈ f :: fs, g.WorksFor x) → ∀ g ∈ fs, g.WorksFor x :=
    fun all g hg => all g (List.mem_cons_of_mem _ hg)
  have top : ∀ {f : Frame} {fs : List Frame}, (∀ g ∈ f :: fs, g.WorksFor x) → f.WorksFor x :=
    fun all => all _ List.mem_cons_self
  cases h with
  | turn _ h => exact h.worksFor locals fits frames begins
  | @edits _ name text u e begun shown =>
    obtain ⟨name', eq, a, at_x, named⟩ := begins _ rfl
    obtain rfl := DocId.name.inj eq
    have registered : w.slotOf? (.name name) = some x :=
      slotOf?_eq distinct at_x (isOpen a at_x) (by simp [named, DocId.same])
    have here : e.slot = x := by simp [begun, editBegun, ensureSlot_of_some registered]
    exact .go (all_cons (shown.slot.trans here) (all_cons trivial frames)) trivial
  | misnamed => exact .go frames trivial
  | closes => exact absurd rfl (unclosed _)
  | @rests _ r _ h =>
    have here : r.slot = x := begins _ rfl
    rcases h with rfl | ⟨n, rfl⟩
    · exact .turn (all_cons here frames)
    · exact .timed (all_cons here frames)
  | @quieted _ r _ _ h =>
    have here : r.slot = x := top frames
    rcases h with ⟨-, rfl⟩ | ⟨-, rfl | rfl⟩
    · exact .go (below frames) trivial
    · exact .park (all_cons here (below frames))
    · exact .call (all_cons here (below frames)) trivial
  | @called _ r _ _ h =>
    have here : r.slot = x := top frames
    rcases h with ⟨-, rfl⟩ | ⟨-, rfl⟩
    · exact .go (below frames) trivial
    · exact .call (all_cons here (below frames)) trivial
  | settles _ _ shown => exact .go (all_cons (shown.slot.trans (top frames)) (below frames)) trivial
  | abandons | leaves | drops | lets | breaks => exact .go (below frames) trivial

/-! ### States -/

/-- Subscribers ask for nothing but edits and the closing of the document they are told of, and the task of an edit of
an open slot is at work for it. -/
structure Loyal (ms : List Mark) (w : World) : Prop where
  locals : ∀ y ∈ w.subscribers, y.IsLocal
  works : ∀ u r q, Mine ms u r → w.post? u = some q → (∀ a, w.seats[r.slot]? = some a → a.isOpen = true) →
    q.WorksFor w.seats r.slot

variable {ms : List Mark} {b : Bench} {u : TaskId} {i : Input} {r : Request} {q : Post}

theorem Sane.apply_subscribers (h : w.Sane) (i : Input) {y : Subscriber} :
    y ∈ (w.apply i).subscribers ↔ y ∈ w.subscribers ∨ i = .subscribe y := by
  by_cases registers : ∃ z, i = .subscribe z
  · obtain ⟨z, rfl⟩ := registers
    show y ∈ w.subscribers ++ [z] ↔ _
    simp [eq_comm]
  have same : (w.apply i).subscribers = w.subscribers := by
    have happens := w.apply_happens i
    generalize w.apply i = v at *
    cases happens with
    | moves running =>
      obtain ⟨x, l, deeds, -, eq⟩ := h.reaches running
      rw [eq, subscribers_land, deeds.subscribers]
    | @resumes t rest =>
      obtain ⟨ks, cur, eq⟩ := resume_eq { w with queue := rest } t
      rw [eq]
    | forgets | launches => rfl
    | subscribes => exact absurd ⟨_, rfl⟩ registers
    | stirs stirred => exact stirred.rest.2.1
  rw [same]
  exact (or_iff_left fun eq => registers ⟨y, eq⟩).symm

theorem Flight.move_works (h : Flight ms b w) (locals : ∀ y ∈ w.subscribers, y.IsLocal)
    (running : w.current = some (t, fs, s)) (works : Post.WorksFor w.seats x ⟨fs, s, .running⟩)
    (isOpen : ∀ a, w.tick.seats[x]? = some a → a.isOpen = true) (found : w.tick.post? t = some q) :
    q.WorksFor w.tick.seats x := by
  have next : Flight (ms ++ w.marks .tick) b w.tick := h.apply (i := .tick) trivial
  have ages : Ages w.seats w.tick.seats := h.sane.tick.ages
  obtain ⟨v, l, deeds, landing, eq⟩ := h.sane.reaches running
  have open_before : ∀ a, w.seats[x]? = some a → a.isOpen = true := by
    intro a at_x
    obtain ⟨c, at_x', -, -, kept⟩ := ages x a at_x
    exact kept (isOpen c at_x')
  have begins : ∀ op, s = .start op → op.WorksFor w.seats x := fun op start => works.begins nofun op start
  have unclosed : ∀ doc, s ≠ .start (.close doc) := by
    rintro doc rfl
    obtain ⟨name, rfl, a, at_x, named⟩ := begins _ rfl
    obtain ⟨c, shut, closed⟩ := h.sane.close_shuts running at_x (by simp [named, DocId.same])
    simp [isOpen c shut] at closed
  have landed := landing.worksFor h.sane.distinct locals (h.sane.running t fs s running).1 open_before unclosed works.frames begins
  have length : t < v.tasks.length := Nat.lt_of_lt_of_le (h.there running) deeds.grown.length
  have step : w.tick = v.land t l := (tick_running running).trans eq
  rw [step] at next found
  obtain ⟨q', found', frames, signal⟩ := land_at next length
  obtain rfl := Option.some.inj (found.symm.trans found')
  refine ⟨frames ▸ landed.frames, fun awake op start => ?_⟩
  rcases signal with calm | ended | ⟨gs, s', goes, same⟩
  · rw [start] at calm
    exact calm.elim
  · exact absurd ended awake
  · obtain rfl : s' = .start op := same.symm.trans start
    exact (landed.begins gs op goes).mono ages

namespace Loyal

theorem apply (h : Loyal ms w) (flight : Flight ms b w) (allowed : i.IsPublic)
    (loyal : ∀ y, i = .subscribe y → y.IsLocal) :
    Loyal (ms ++ w.marks i) (w.apply i) := by
  have ages : Ages w.seats (w.apply i).seats := (flight.sane.apply allowed).ages
  refine ⟨fun y mem => ?_, fun u r q mine found isOpen => ?_⟩
  · rcases (flight.sane.apply_subscribers i).1 mem with old | new
    · exact h.locals y old
    · exact loyal y new
  obtain ⟨e, edit, worker, slot, doc, generation, text⟩ := mine
  rcases List.mem_append.1 edit with old | now
  · have there := flight.booked.known.workers e u old worker
    obtain ⟨q₀, before⟩ : ∃ q, w.post? u = some q := by
      by_cases runs : ∃ fs s, w.current = some (u, fs, s)
      · obtain ⟨fs, s, running⟩ := runs
        exact ⟨_, flight.post?_running running⟩
      · exact ⟨_, (post?_other fun fs s running => runs ⟨fs, s, running⟩).trans
          (congrArg (Option.map Task.post) (List.getElem?_eq_getElem there))⟩
    have works : q₀.WorksFor w.seats r.slot := by
      refine h.works u r q₀ ⟨e, old, worker, slot, doc, generation, text⟩ before fun a at_x => ?_
      obtain ⟨c, at_x', -, -, kept⟩ := ages r.slot a at_x
      exact kept (isOpen c at_x')
    by_cases steps : w.Steps i u
    · obtain ⟨rfl, fs, s, running⟩ := steps
      obtain rfl := Option.some.inj ((flight.post?_running running).symm.trans before)
      exact flight.move_works h.locals running works isOpen found
    · obtain ⟨q', found', same | ⟨-, frames, signal⟩⟩ := flight.apply_post allowed before steps
      · obtain rfl := Option.some.inj (found.symm.trans found')
        subst same
        exact ⟨works.frames, fun awake op start => (works.begins awake op start).mono ages⟩
      · obtain rfl := Option.some.inj (found.symm.trans found')
        refine ⟨frames ▸ works.frames, fun awake op start => ?_⟩
        rcases signal with same | calm
        · refine (works.begins (fun ended => awake ?_) op (same.symm.trans start)).mono ages
          exact flight.post_ended allowed before ended found
        · rw [start] at calm
          exact calm.elim
  · cases i with
    | tick =>
      obtain ⟨t, fs, doc', text', running, rfl⟩ := mark?_edited (Option.mem_toList.1 now)
      obtain ⟨name, rfl⟩ := worker_named worker
      obtain rfl := Option.some.inj (found.symm.trans (flight.hired_post running worker))
      refine ⟨nofun, ?_⟩
      rintro - op ⟨⟩
      exact slot
    | _ => cases now

/-- The task of an edit of an open slot waits for no group. -/
theorem alone (h : Loyal ms w) (flight : Flight ms b w) (meeting : w.Meeting) (mine : Mine ms u r)
    (isOpen : ∀ a, w.seats[r.slot]? = some a → a.isOpen = true) : w.Alone u := by
  intro k g found waits
  have post := flight.steady.midst.post_of_task found (by rw [waits]; nofun)
  obtain ⟨f, gs, frames, meets⟩ := meeting u k found g waits
  have works := (h.works u r _ mine post isOpen).frames f (show f ∈ k.frames from frames ▸ List.mem_cons_self)
  cases f with
  | closing | idling | collecting => exact works
  | _ => exact meets

end Loyal

theorem isOpen_of_registered {doc : DocId} (registered : w.slotOf? doc = some x) :
    ∀ a, w.seats[x]? = some a → a.isOpen = true := by
  obtain ⟨a, at_x, isOpen, -⟩ := slotOf?_seat registered
  intro c at_x'
  obtain rfl := Option.some.inj (at_x.symm.trans at_x')
  exact isOpen

/-- What an edit or a closing cancels works for an edit of the slot that is registered under the document. -/
theorem Enlisted.drops (h : Enlisted ms w) (drops : w.Drops u) : ∃ t fs op doc r, w.current = some (t, fs, .start op) ∧
    ((∃ text, op = .edit doc text) ∨ op = .close doc) ∧ w.slotOf? doc = some r.slot ∧ Mine ms u r := by
  have known : ∀ {x : SlotId} {k : Slot}, w.slots[x]? = some k → k.pending = some u ∨ u ∈ k.tasks →
      ∃ r, Mine ms u r ∧ r.slot = x := by
    intro x k found listed
    exact h.mine x k.unlocked u (by rw [records_getElem?, found]; rfl) listed
  cases drops with
  | @pending t fs doc text x k _ running registered found pending =>
    obtain ⟨r, mine, rfl⟩ := known found (.inl pending)
    exact ⟨t, fs, _, doc, r, running, .inl ⟨text, rfl⟩, registered, mine⟩
  | @member t fs doc x k _ running registered found member =>
    obtain ⟨r, mine, rfl⟩ := known found (.inr member)
    exact ⟨t, fs, _, doc, r, running, .inr rfl, registered, mine⟩

/-! ### The tasks that a step cancels -/

/-- What is known of a loyal run between its steps. -/
structure Ready (ms : List Mark) (b : Bench) (w : World) : Prop where
  flight : Flight ms b w
  loyal : Loyal ms w
  enlisted : Enlisted ms w
  meeting : w.Meeting
  tailed : w.Tailed
  sober : ∀ t fs s, w.current = some (t, fs, s) → w.Unasked t

namespace Ready

/-- Whatever a step cancels waits for no group. -/
theorem strikes_alone (h : Ready ms b w) (strikes : w.Strikes u) : w.Alone u := by
  rcases strikes with drops | ⟨t, p, fs, s, running⟩
  · obtain ⟨t, fs, op, doc, r, -, -, registered, mine⟩ := h.enlisted.drops drops
    exact h.loyal.alone h.flight h.meeting mine (isOpen_of_registered registered)
  · have tails := h.tailed.limiting t _ s p u running List.mem_cons_self
    exact fun k g found => (h.flight.follower_alone h.meeting tails found).2 g

/-- A step does not cancel the task that takes it, unless that closes a document for an edit of which it works. -/
theorem strikes_other (h : Ready ms b w) (running : w.current = some (t, fs, s)) (strikes : w.Strikes u)
    (own : ∀ doc x, s = .start (.close doc) → w.slotOf? doc = some x → t ∉ w.tasksOf x) : u ≠ t := by
  rintro rfl
  rcases strikes with drops | ⟨t', p, fs', s', running'⟩
  · cases drops with
    | @pending t' fs' doc text x k _ running' registered found pending =>
      cases running.symm.trans running'
      obtain ⟨q, post, quiet⟩ := h.enlisted.quiet x k.unlocked u (by rw [records_getElem?, found]; rfl) pending
      obtain rfl := Option.some.inj (post.symm.trans (h.flight.post?_running running))
      obtain ⟨r, begins⟩ := quiet_still quiet
      cases begins
    | @member t' fs' doc x k _ running' registered found member =>
      cases running.symm.trans running'
      exact own doc x rfl registered (mem_tasksOf.2 ⟨k, found, member⟩)
  · cases running.symm.trans running'
    have tails := h.tailed.limiting u _ s p u running List.mem_cons_self
    obtain ⟨p', eq⟩ := (tails.running _ _ running).frames _ List.mem_cons_self
    cases eq

/-- What a step does aside leaves the running task unasked, unless that closes a document for an edit of which it
works. -/
theorem deeds_unasked (h : Ready ms b w) (running : w.current = some (t, fs, s))
    (own : ∀ doc x, s = .start (.close doc) → w.slotOf? doc = some x → t ∉ w.tasksOf x) {v : World}
    (deeds : w.Deeds w v) :
    v.Unasked t :=
  deeds.unasked (h.flight.there running) (h.sober t fs s running) fun _ strikes =>
    ⟨h.strikes_other running strikes own, h.strikes_alone strikes⟩

theorem members_struck (running : w.current = some (t, fs, .start (.close doc))) (registered : w.slotOf? doc = some x) :
    ∀ m ∈ w.tasksOf x, w.Strikes m := by
  intro m mem
  obtain ⟨k, found, listed⟩ := mem_tasksOf.1 mem
  exact .inl (.member running registered found listed)

/-- A task that waits for no group, and whom nobody has asked to cancel, remains so by a step that does not cancel
it. -/
theorem move_unasked (h : Ready ms b w) (running : w.current = some (t, fs, s)) (there : u < w.tasks.length)
    (unasked : w.Unasked u) (spared : ¬ w.Strikes u)
    (lone : ∀ l ks, Next w t fs s l ks → t = u → l.IsLone ∧ ∀ r, l ≠ .finish r) : (w.move t fs s).Unasked u := by
  have other : ∀ f, w.Strikes f → f ≠ u := by
    rintro f strikes rfl
    exact spared strikes
  by_cases own : ∃ doc x, s = .start (.close doc) ∧ w.slotOf? doc = some x ∧ t ∈ w.tasksOf x
  · obtain ⟨doc, x, rfl, registered, mem⟩ := own
    have struck := members_struck running registered
    exact beginClose_unasked registered mem (h.flight.sane.members x) unasked (other t (struck t mem)) fun m mem =>
      ⟨other m (struck m mem), h.strikes_alone (struck m mem)⟩
  · obtain ⟨x, l, deeds, next, eq⟩ := h.flight.sane.reaches running
    have runner : x.Unasked t :=
      h.deeds_unasked running (fun doc x start registered mem => own ⟨doc, x, start, registered, mem⟩) deeds
    rw [eq]
    exact land_unasked (fun k found => (runner k found).asked)
      (deeds.unasked there unasked fun f strikes => ⟨other f strikes, h.strikes_alone strikes⟩) (lone l _ next)

/-- Nobody asks a task to cancel while it runs. -/
theorem move_sober (h : Ready ms b w) (running : w.current = some (t, fs, s)) {fs' : List Frame} {s' : Signal}
    (now : (w.move t fs s).current = some (u, fs', s')) : (w.move t fs s).Unasked u := by
  by_cases own : ∃ doc x, s = .start (.close doc) ∧ w.slotOf? doc = some x ∧ t ∈ w.tasksOf x
  · -- its tasks are waited for, so the task that closes does not go on running
    obtain ⟨doc, x, rfl, registered, mem⟩ := own
    have struck := members_struck running registered
    have ends : (w.closingReach doc x).1 ≠ .endless := closingReach_ends fun m mem => h.strikes_alone (struck m mem)
    rw [show w.move t fs (.start (.close doc)) = w.beginClose t fs doc from rfl,
      beginClose_tasks t fs registered (List.ne_nil_of_mem mem)] at now
    dsimp only at now
    rw [if_neg ends] at now
    exact nomatch (land_current _ t (.park _ _)).symm.trans now
  · obtain ⟨x, l, deeds, next, eq⟩ := h.flight.sane.reaches running
    have runner : x.Unasked t :=
      h.deeds_unasked running (fun doc x start registered mem => own ⟨doc, x, start, registered, mem⟩) deeds
    rw [eq, land_current] at now
    obtain ⟨rfl, rfl⟩ := Landing.now_eq now
    rw [eq]
    exact runner

theorem apply (h : Ready ms b w) (allowed : i.IsPublic) (loyal : ∀ y, i = .subscribe y → y.IsLocal) :
    Ready (ms ++ w.marks i) b (w.apply i) := by
  refine ⟨h.flight.apply allowed, h.loyal.apply h.flight allowed loyal, h.enlisted.apply h.flight allowed,
    h.flight.sane.apply_meeting h.meeting i, h.flight.apply_tailed h.tailed i, fun u fs s now => ?_⟩
  by_cases outside : ∃ f, i = .cancel f
  · -- nobody is cancelled from outside while a task runs
    obtain ⟨f, rfl⟩ := outside
    have same : (w.apply (.cancel f)).current = w.current := by
      show (if w.current.isNone then w.cancel f else w).current = w.current
      split
      · exact (cancel_nudges w f).current
      · rfl
    have idle : w.apply (.cancel f) = w := by
      show (if w.current.isNone then w.cancel f else w) = w
      rw [if_neg (by simp [← same, now])]
    rw [idle] at now ⊢
    exact h.sober u fs s now
  have happens := w.apply_happens i
  generalize w.apply i = v at *
  cases happens with
  | moves running => exact h.move_sober running now
  | @resumes t rest =>
    rcases ({ w with queue := rest } : World).resume_cases t with same | ⟨k, found, -, eq⟩
    · rw [same] at now ⊢
      exact h.sober u fs s now
    · rw [eq] at now ⊢
      obtain ⟨rfl, -⟩ : t = u ∧ _ := by simpa [World.go] using now
      intro k' found'
      obtain rfl : k.resumed = k' := by simpa [World.go, modifyTask, found] using found'
      exact ⟨rfl, by simp [Task.resumed], fun idle => absurd rfl idle⟩
  | forgets | subscribes => exact h.sober u fs s now
  | launches =>
    obtain ⟨rfl, -⟩ : w.tasks.length = u ∧ _ := by simpa [World.launch] using now
    intro k' found'
    obtain rfl := Option.some.inj (List.getElem?_concat_length.symm.trans found')
    exact ⟨rfl, by simp, fun idle => absurd rfl idle⟩
  | stirs stirred => exact stirred.unasked (fun f cancels => outside ⟨f, cancels⟩) (h.sober u fs s (stirred.rest.2.2.2.1.symm.trans now))

end Ready

theorem IsNew.ready (new : w.IsNew) (locals : ∀ y ∈ w.subscribers, y.IsLocal) : Ready [] (w.bench none) w where
  flight := new.flight
  loyal := ⟨locals, fun u r q mine => by
    obtain ⟨e, edit, -⟩ := mine
    cases edit⟩
  enlisted := run_enlisted new (by simp : ∀ i ∈ ([] : List Input), i.IsPublic)
  meeting := run_meeting new (by simp : ∀ i ∈ ([] : List Input), i.IsPublic)
  tailed := run_tailed new (by simp : ∀ i ∈ ([] : List Input), i.IsPublic)
  sober t fs s now := by simp [new.current] at now

theorem run_ready (new : w.IsNew) (locals : ∀ y ∈ w.subscribers, y.IsLocal) {inputs : List Input}
    (allowed : ∀ i ∈ inputs, i.IsPublic) (loyal : ∀ y, .subscribe y ∈ inputs → y.IsLocal) :
    Ready (w.marksAlong inputs) (w.bench none) (w.run inputs) := by
  have kept : ∀ (ms : List Mark) (v : World) (i : Input), Ready ms (w.bench none) v →
      i.IsPublic ∧ (∀ y, i = .subscribe y → y.IsLocal) → Ready (ms ++ v.marks i) (w.bench none) (v.apply i) :=
    fun _ _ _ h given => h.apply given.1 given.2
  refine run_induct (I := fun ms v => Ready ms (w.bench none) v) kept (new.ready locals) inputs fun i mem => ⟨allowed i mem, ?_⟩
  rintro y rfl
  exact loyal y mem

end World
end
end InkPreview.Live
