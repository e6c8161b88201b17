import InkPreview.Proofs.Live.Attendance
/-!
Gentle runs, in which nobody but the editor itself cancels a task, and no subscriber closes anything.
A task that has a duty goes on as it goes with the duty, so that a cancellation reaches the task it is meant
for and no other. Main statement: `run_gentle`.
-/
namespace InkPreview.Live

/-- What may happen in a gentle run. -/
def Input.IsGentle : Input → Prop
  | .cancel _ => False
  | .subscribe y => y.IsMild
  | _ => True

theorem Input.IsGentle.calm {i : Input} (h : i.IsGentle) (u : TaskId) : i ≠ .cancel u := by
  rintro rfl
  exact h
/-! ### What the work for an edit leads to -/

section
variable {pushed fs : List Frame} {x : SlotId} {l : Landing}

theorem Op.Opens.mild {op op' : Op} (h : op.Opens pushed op') (mild : op.IsMild) :
    (∀ f ∈ pushed, f.IsMild) ∧ op'.IsMild := by
  cases h with
  | closeAll | stop | edited | viewed | closed | replied | converse => exact mild.elim
  | exportAs | requestEdit | requestExport | reportedEdit | compile => simp [Frame.IsMild, Op.IsMild]

theorem Op.Waits.mild {op : Op} {wait : Wait} (h : op.Waits pushed wait) (mild : op.IsMild) :
    (∀ f ∈ pushed, f.IsMild) ∧ ∀ g, wait ≠ .group g := by
  cases h with
  | waitIdle | converse | together => exact mild.elim
  | compile => simp [Frame.IsMild]

theorem Op.Sleeps.mild {op : Op} (h : op.Sleeps pushed) : ∀ f ∈ pushed, f.IsMild := by
  cases h <;> simp [Frame.IsMild]

theorem Op.Answers.mild {op : Op} {s : Signal} (h : op.Answers pushed s) : ∀ f ∈ pushed, f.IsMild := by
  cases h <;> simp [Frame.IsMild]

theorem Frame.Opens.mild {f : Frame} {op : Op} (h : f.Opens pushed op) (mild : f.IsMild) :
    (∀ f ∈ pushed, f.IsMild) ∧ op.IsMild := by
  cases h with
  | closingAll | serving | receiving => exact mild.elim
  | broadcasting | acknowledging | confirming => simp [Frame.IsMild, Op.IsMild]

theorem Frame.Waits.mild {f : Frame} {wait : Wait} (h : f.Waits pushed wait) : ¬ f.IsMild := by
  cases h <;> exact id

theorem Op.Lands.mild {op : Op} {new : TaskId} (h : op.Lands new fs l) (mild : op.IsMild)
    (frames : ∀ f ∈ fs, f.IsMild) : (Duty.edit x).Bears l := by
  cases h with
  | opens h => exact .call (all_append (h.mild mild).1 frames) (h.mild mild).2
  | waits h => exact .park (all_append (h.mild mild).1 frames) (h.mild mild).2
  | turn h => exact .turn (all_append h.mild frames)
  | timed h => exact .timed (all_append h.mild frames) nofun
  | limited => exact .timed (all_cons trivial frames) nofun
  | answers h => exact .go (all_append h.mild frames) h.simple.2

namespace World
variable {w : World} {t : TaskId} {s : Signal} {ks : List Slot}

theorem Acted.mild {i : Nat} {u : Update} {todo : List Action} (h : Acted i u todo fs l)
    (mild : ∀ a ∈ todo, a.IsMild) (frames : ∀ f ∈ fs, f.IsMild) : (Duty.edit x).Bears l := by
  have rest : ∀ {rest : List Action}, rest <:+ todo → ∀ f ∈ Frame.acting i u rest :: fs, f.IsMild :=
    fun shorter => all_cons (fun a mem => mild a (shorter.subset mem)) frames
  cases h with
  | through | fails => exact .go frames trivial
  | turn h => exact .turn (rest h)
  | timed h => exact .timed (rest h) nofun
  | edits h => exact .call (rest h) trivial
  | closes h mem => exact (mild _ mem).elim
  | asks h mem => exact .call (rest h) (mild _ mem)
  | skips h => exact .go (rest h) trivial

theorem Told.mild {u : Update} {js : List Nat} (h : Told w u fs js l) (subscribers : ∀ y ∈ w.subscribers, y.IsMild)
    (frames : ∀ f ∈ fs, f.IsMild) : (Duty.edit x).Bears l := by
  cases h with
  | through | stale => exact .go frames trivial
  | script _ mem acted =>
    exact acted.mild (subscribers _ (List.mem_of_getElem? mem) _) (all_cons trivial frames)
  | clients => exact .go (all_cons trivial (all_cons trivial frames)) trivial
  | nobody => exact .go (all_cons trivial frames) trivial

theorem Killed.mild {p : ProcessId} {why : KillReason} (h : Killed p why fs l) (frames : ∀ f ∈ fs, f.IsMild) :
    (Duty.edit x).Bears l := by
  cases h with
  | timedOut | cancelled => exact .go frames trivial
  | turn => exact .turn (all_cons trivial frames)
  | timed => exact .timed (all_cons trivial frames) nofun

theorem Turn.mild (h : Turn w fs s l) (subscribers : ∀ y ∈ w.subscribers, y.IsMild)
    (frames : ∀ f ∈ fs, f.IsMild) (begins : ∀ op, s = .start op → op.IsMild) : (Duty.edit x).Bears l := by
  have below : ∀ {f : Frame} {fs : List Frame}, (∀ g ∈ f :: fs, g.IsMild) → ∀ g ∈ fs, g.IsMild :=
    fun all g hg => all g (List.mem_cons_of_mem _ hg)
  cases h with
  | done => exact ⟨nofun, nofun, trivial⟩
  | begins h => exact h.mild (begins _ rfl) frames
  | opens _ h =>
    obtain ⟨pushed, op⟩ := h.mild (frames _ List.mem_cons_self)
    exact .call (all_append pushed (below frames)) op
  | waits _ h => exact absurd (frames _ List.mem_cons_self) h.mild
  | pops _ _ ends => exact .go (below frames) ends
  | told _ _ h => exact h.mild subscribers (below frames)
  | acted h => exact h.mild (frames _ List.mem_cons_self) (below frames)
  | late | hurried => exact .park (all_cons trivial (below frames)) nofun
  | killed h | reaped h => exact h.mild (below frames)
  | killedNow _ h | lost _ _ h => exact h.mild (below frames)
  | untold | failed | stopped | ran | waited | heeded | unreaped | faulted => exact .go (below frames) trivial

/-- A task that works for an edit goes on as it goes with that. -/
theorem Next.mild (h : Next w t fs s l ks) (subscribers : ∀ y ∈ w.subscribers, y.IsMild)
    (frames : ∀ f ∈ fs, f.IsMild) (begins : ∀ op, s = .start op → op.IsMild) : (Duty.edit x).Bears l := by
  have below : ∀ {f : Frame} {fs : List Frame}, (∀ g ∈ f :: fs, g.IsMild) → ∀ g ∈ fs, g.IsMild :=
    fun all g hg => all g (List.mem_cons_of_mem _ hg)
  cases h with
  | turn _ h => exact h.mild subscribers frames begins
  | edits => exact .go (all_cons trivial (all_cons trivial frames)) trivial
  | misnamed => exact .go frames trivial
  | closes => exact (begins _ rfl).elim
  | rests h =>
    rcases h with rfl | ⟨n, rfl⟩
    · exact .turn (all_cons trivial frames)
    · exact .timed (all_cons trivial frames) nofun
  | quieted h =>
    rcases h with ⟨-, rfl⟩ | ⟨-, rfl | rfl⟩
    · exact .go (below frames) trivial
    · exact .park (all_cons trivial (below frames)) nofun
    · exact .call (all_cons trivial (below frames)) trivial
  | called h =>
    rcases h with ⟨-, rfl⟩ | ⟨-, rfl⟩
    · exact .go (below frames) trivial
    · exact .call (all_cons trivial (below frames)) trivial
  | settles => exact .go (all_cons trivial (below frames)) trivial
  | abandons | leaves | drops | lets | breaks => exact .go (below frames) trivial


theorem Next.bears {d : Duty} (h : Next w t fs s l ks) (subscribers : ∀ y ∈ w.subscribers, y.IsMild)
    (suits : d.Suits ⟨fs, s, .running⟩) : d.Bears l := by
  cases d with
  | edit => exact h.mild subscribers suits.frames suits.begins
  | follow => exact h.follows suits.frames suits.begins

/-- The task of an edit is to compile the text of that edit. -/
theorem beginEdit_hired {name text : String} {u : TaskId}
    (worker : (w.editBegun (.name name) text).worker = some u) :
    (w.beginEdit t fs (.name name) text).tasks[u]? = some ⟨[], .start (.background
      ⟨(w.editBegun (.name name) text).slot, name, (w.editBegun (.name name) text).generation, text⟩), .turn, false,
      [.forget (w.editBegun (.name name) text).slot u], none⟩ := by
  have hired : (if needsCompile text then some w.tasks.length else none) = some u := worker
  split at hired
  · rename_i needed
    obtain rfl := Option.some.inj hired
    have unclassified : classify text = none := by simpa [needsCompile] using needed
    let e := w.editBegun (.name name) text
    let v := ((w.bumped (.name name)).abandonPending e.slot).note (.scheduled name e.generation text)
    have length : v.tasks.length = w.tasks.length := (length_abandonPending _ _).trans (by rw [tasks_bumped])
    rw [beginEdit_name]
    dsimp only
    rw [unclassified]
    dsimp only
    rw [tasks_deliver, ← length]
    exact List.getElem?_concat_length
  · cases hired

/-! ### Gentle states -/

/-- A task that has a duty is where it goes with that; only they are asked to cancel; a task that waits with a
limit has the process followed for itself; and slots know none but those who work for their edits. -/
structure Gentle (w : World) : Prop where
  subscribers : ∀ y ∈ w.subscribers, y.IsMild
  suits : ∀ (u : TaskId) k d, w.tasks[u]? = some k → k.duty? = some d → d.Suits k.post
  running : ∀ t fs s k d, w.current = some (t, fs, s) → w.tasks[t]? = some k → k.duty? = some d →
    d.Suits ⟨fs, s, .running⟩
  asked : ∀ (u : TaskId) k, w.tasks[u]? = some k → k.mustCancel = true → k.duty? ≠ none
  limited : ∀ (u : TaskId) k p f, w.tasks[u]? = some k → .limited p f ∈ k.frames → w.HasDuty f (.follow u)
  limiting : ∀ t fs s p f, w.current = some (t, fs, s) → .limited p f ∈ fs → w.HasDuty f (.follow t)
  employed : ∀ (x : SlotId) k u, w.records[x]? = some k → k.pending = some u ∨ u ∈ k.tasks → w.HasDuty u (.edit x)

namespace Gentle

/-- Those in a slot work for it. -/
theorem drops (h : w.Gentle) {u : TaskId} (drops : w.Drops u) : ∃ x, w.HasDuty u (.edit x) ∧
    ((∃ t fs doc text, w.current = some (t, fs, .start (.edit doc text)) ∧ w.slotOf? doc = some x) ∨
      ∃ t fs doc, w.current = some (t, fs, .start (.close doc)) ∧ w.slotOf? doc = some x) := by
  cases drops with
  | @pending t fs doc text x k _ running registered found pending =>
    refine ⟨x, h.employed x k.unlocked u ?_ (.inl pending), .inl ⟨t, fs, doc, text, running, registered⟩⟩
    rw [records_getElem?, found]
    rfl
  | @member t fs doc x k _ running registered found member =>
    refine ⟨x, h.employed x k.unlocked u ?_ (.inr member), .inr ⟨t, fs, doc, running, registered⟩⟩
    rw [records_getElem?, found]
    rfl

theorem staffed (h : w.Gentle) : w.Staffed := by
  have onDuty : ∀ {u : TaskId} {d : Duty}, w.HasDuty u d → w.OnDuty u := by
    rintro u d ⟨k, found, duty⟩
    exact ⟨k, found, by simp [duty], (h.suits u k d found duty).wait⟩
  refine ⟨fun u strikes => ?_, ?_⟩
  · rcases strikes with drops | ⟨t, p, fs, s, running⟩
    · obtain ⟨x, duty, -⟩ := h.drops drops
      exact onDuty duty
    · exact onDuty (h.limiting t _ s p u running List.mem_cons_self)
  · rintro t f ⟨p, fs, s, running⟩
    exact h.limiting t _ s p f running List.mem_cons_self

theorem suited (h : w.Gentle) (d : Duty) : w.Suited d :=
  ⟨fun u k found duty => h.suits u k d found duty, fun u fs s k now found duty => h.running u fs s k d now found duty⟩

theorem attended (h : w.Gentle) : w.Attended := ⟨h.limited, h.limiting⟩

theorem contained (h : w.Gentle) : w.Contained := by
  refine ⟨h.staffed, fun t fs s k l ks running found told next => ?_⟩
  have duty : k.duty? ≠ none := by
    rcases told with must | strikes
    · exact h.asked t k found must
    · obtain ⟨k', found', duty, -⟩ := h.staffed.onDuty t strikes
      obtain rfl := Option.some.inj (found.symm.trans found')
      exact duty
  obtain ⟨d, of_k⟩ := Option.ne_none_iff_exists'.1 duty
  exact ⟨duty, (next.bears h.subscribers (h.running t fs s k d running found of_k)).lone⟩

/-! ### Steps -/

variable {v : World} {ms : List Mark} {b : Bench}

theorem moved_asked (h : w.Gentle) (there : t < w.tasks.length) (moved : w.Moved v t l) {u : TaskId} {k' : Task}
    (found : v.tasks[u]? = some k') (must : k'.mustCancel = true) : k'.duty? ≠ none := by
  have asked : ∀ {u : TaskId} {k k₁ : Task} {hit : Prop}, w.tasks[u]? = some k → k.Handled hit k₁ →
      k₁.mustCancel = true → k₁.duty? ≠ none := by
    intro u k k₁ hit at_u handled must
    rw [handled.duty]
    rcases handled.spared with ⟨-, duty⟩ | ⟨same, -⟩
    · exact duty
    · exact h.asked u k at_u (same ▸ must)
  rcases moved.task there found with ⟨k, k₁, rfl, at_t, handled, rfl | ⟨must', handled'⟩⟩ | ⟨k, at_u, handled⟩ | enters
  · rw [l.leave_duty]
    refine asked at_t handled ?_
    cases l with
    | go | park | turn | timed => exact must
    | finish => cases must
  · rw [handled'.duty]
    exact (l.leave_duty k₁).symm ▸ asked at_t handled must'
  · exact asked at_u handled must
  · exact enters.asked must

theorem move (h : w.Gentle) (flight : Flight ms b w) (running : w.current = some (t, fs, s)) :
    (w.move t fs s).Gentle := by
  obtain ⟨l, ks, next, moved⟩ := h.contained.moved flight running
  have there := flight.there running
  have suited : ∀ d, (w.move t fs s).Suited d := fun d =>
    (h.suited d).move moved there fun k found duty => next.bears h.subscribers (h.running t fs s k d running found duty)
  have attended := h.attended.move running next moved there (h.asked t)
  have subscribers : (w.move t fs s).subscribers = w.subscribers := by
    obtain ⟨x, l', deeds, -, eq⟩ := flight.sane.reaches running
    rw [eq, subscribers_land, deeds.subscribers]
  refine ⟨subscribers ▸ h.subscribers, fun u k d => (suited d).suits u k, fun u fs s k d => (suited d).running u fs s k,
    fun u k => h.moved_asked there moved, attended.limited, attended.limiting, ?employed⟩
  case employed =>
    intro x k' u found listed
    have step : w.apply .tick = w.move t fs s := tick_running running
    have kept : ∀ {k : Slot}, w.records[x]? = some k → k.Later k' → (w.move t fs s).HasDuty u (.edit x) :=
      fun at_x later => moved.hasDuty (h.employed x _ u at_x (listed.imp (later.pending u) (later.tasks u)))
    rw [← step] at found
    cases flight.sane.apply_revised .tick found with
    | kept at_x later => exact kept at_x later
    | settled _ _ _ at_x later => exact kept at_x later
    | @edited t' fs' doc text _ running' here _ _ pending tasks =>
      obtain ⟨rfl, rfl, rfl⟩ : t = t' ∧ fs = fs' ∧ s = _ := by simpa [running] using running'
      have hired : (w.editBegun doc text).worker = some u →
          (w.move t fs (.start (.edit doc text))).HasDuty u (.edit x) := by
        intro worker
        cases doc with
        | name name => exact ⟨_, beginEdit_hired worker, by rw [← here]; rfl⟩
        | number | truth => cases worker
      rcases listed with waits | works
      · exact hired (pending u waits)
      · rcases tasks u works with old | new
        · rw [← listed_records, World.listed] at old
          cases at_x : w.records[x]? with
          | none => simp [at_x] at old
          | some k => exact moved.hasDuty (h.employed x k u at_x (.inr (by simpa [at_x] using old)))
        · exact hired new

/-! ### Inputs -/

/-- What cancels nobody and adds nobody to a slot leaves a state gentle. -/
theorem treated (h : w.Gentle) (there : ∀ t fs s, w.current = some (t, fs, s) → t < w.tasks.length)
    (treats : Treats (fun _ => False) w.tasks v.tasks) (subscribers : ∀ y ∈ v.subscribers, y.IsMild)
    (current : v.current = w.current)
    (employed : ∀ (x : SlotId) k u, v.records[x]? = some k → k.pending = some u ∨ u ∈ k.tasks → w.HasDuty u (.edit x)) :
    v.Gentle := by
  have suited : ∀ d, v.Suited d := fun d => (h.suited d).treated there treats current
  have attended := h.attended.treated treats current
  refine ⟨subscribers, fun u k d => (suited d).suits u k, fun u fs s k d => (suited d).running u fs s k,
    fun u k' found must => ?_, attended.limited, attended.limiting,
    fun x k u found listed => (employed x k u found listed).treated treats⟩
  rcases treats_task treats found with ⟨k, at_u, handled⟩ | enters
  · rw [handled.duty]
    rcases handled.spared with ⟨never, -⟩ | ⟨same, -⟩
    · exact never.elim
    · exact h.asked u k at_u (same ▸ must)
  · exact enters.asked must

/-- A task that gets its turn goes on where it was. -/
theorem resume (h : w.Gentle) (t : TaskId) : (w.resume t).Gentle := by
  have suited : ∀ d, (w.resume t).Suited d := fun d => (h.suited d).resume t
  have attended := h.attended.resume t
  rcases w.resume_cases t with same | ⟨k, found, -, eq⟩
  · exact same.symm ▸ h
  rw [eq] at suited attended ⊢
  refine ⟨h.subscribers, fun u k d => (suited d).suits u k, fun u fs s k d => (suited d).running u fs s k,
    fun u k' at_u must => ?_, attended.limited, attended.limiting,
    fun x k' u at_x listed => hasDuty_resumed rfl (h.employed x k' u at_x listed)⟩
  obtain ⟨k₁, old, rfl | rfl, -⟩ := resumed_task at_u
  · exact h.asked u _ old must
  · cases must

/-- A task that begins something from outside has no duty. -/
theorem launch (h : w.Gentle) (op : Op) : (w.launch op).2.Gentle := by
  have suited : ∀ d, (w.launch op).2.Suited d := fun d => (h.suited d).launch op
  have attended := h.attended.launch op
  refine ⟨h.subscribers, fun u k d => (suited d).suits u k, fun u fs s k d => (suited d).running u fs s k,
    fun u k' found must => ?_, attended.limited, attended.limiting, fun x k u at_x listed => ?_⟩
  · rcases getElem?_concat_iff.1 found with old | ⟨-, rfl⟩
    · exact h.asked u k' old must
    · cases must
  · obtain ⟨k', old, duty⟩ := h.employed x k u at_x listed
    exact ⟨k', getElem?_concat_iff.2 (.inl old), duty⟩

/-- Whatever happens gently to a gentle state, gentle it stays. -/
theorem apply (h : w.Gentle) (flight : Flight ms b w) {i : Input} (gentle : i.IsGentle) : (w.apply i).Gentle := by
  have there : ∀ t fs s, w.current = some (t, fs, s) → t < w.tasks.length := fun t fs s => flight.there
  have happens := w.apply_happens i
  generalize w.apply i = v at happens
  cases happens with
  | moves running => exact h.move flight running
  | @resumes t rest idle =>
    have taken : ({ w with queue := rest } : World).Gentle := ⟨h.1, h.2, h.3, h.4, h.5, h.6, h.7⟩
    exact taken.resume t
  | @forgets s u rest idle =>
    refine h.treated there (.of_eq rfl) h.subscribers rfl fun x k v found listed => ?_
    rw [records_modifySlot (w := { w with queue := rest }) s (g := fun k => { k with tasks := k.tasks.filter (· != u) })
      fun _ => rfl] at found
    obtain ⟨k₁, old, rfl⟩ := modify_record found
    refine h.employed x k₁ v old ?_
    split at listed
    · exact listed.imp id fun mem => (List.mem_filter.1 mem).1
    · exact listed
  | launches idle => exact h.launch _
  | @subscribes y =>
    refine h.treated there (.of_eq rfl) (fun z mem => ?_) rfl h.employed
    rcases List.mem_append.1 mem with old | new
    · exact h.subscribers z old
    · exact List.mem_singleton.1 new ▸ gentle
  | stirs stirs =>
    obtain ⟨records, subscribers, -, current, -⟩ := stirs.rest
    exact h.treated there (stirs.treats gentle.calm) (subscribers ▸ h.subscribers) current (records ▸ h.employed)

end Gentle

theorem IsNew.gentle (new : w.IsNew) (mild : ∀ y ∈ w.subscribers, y.IsMild) : w.Gentle where
  subscribers := mild
  suits := by simp [new.tasks]
  running := by simp [new.current]
  asked := by simp [new.tasks]
  limited := by simp [new.tasks]
  limiting := by simp [new.current]
  employed := by simp [records, new.slots]

/-- Every state of a gentle run is gentle. -/
theorem run_gentle (new : w.IsNew) (mild : ∀ y ∈ w.subscribers, y.IsMild) {inputs : List Input}
    (allowed : ∀ i ∈ inputs, i.IsPublic ∧ i.IsGentle) : (w.run inputs).Gentle := by
  have start : Flight [] (w.bench none) w ∧ w.Gentle := ⟨new.flight, new.gentle mild⟩
  refine (run_induct (I := fun ms v => Flight ms (w.bench none) v ∧ v.Gentle) ?_ start inputs allowed).2
  rintro ms v i ⟨flight, gentle⟩ ⟨allowed, soft⟩
  exact ⟨flight.apply allowed, gentle.apply flight soft⟩

end World
end
end InkPreview.Live
