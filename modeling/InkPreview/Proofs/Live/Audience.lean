import InkPreview.Proofs.Live.Stacks
/-!
Who is sent to. Only a conversation that begins adds to the clients, and it goes on until its client has left, a
fault ends it, or it is cancelled. Main statements: `Sane.apply_admits` and `Flight.apply_converses`.
-/
namespace InkPreview.Live

/-- The client whose conversation a frame carries on. -/
def Frame.client? : Frame → Option ClientId
  | .serving c | .receiving c => some c
  | _ => none

/-- The frames of a conversation, from where a message is awaited or has been taken on upwards. -/
def Conversing (c : ClientId) (pre : List Frame) (s : Signal) : Prop :=
  pre = [.receiving c] ∧ s.IsCalm ∨ ∃ above, pre = above ++ [.serving c]

theorem Landing.Above.puts {c : ClientId} {base : List Frame} {l : Landing} (h : l.Above (.serving c :: base)) :
    l.Puts (Conversing c) base := by
  cases l with
  | go fs s =>
    obtain ⟨more, rfl⟩ := h
    exact ⟨more ++ [.serving c], by simp, .inr ⟨more, rfl⟩⟩
  | park fs | turn fs | timed fs =>
    obtain ⟨more, rfl⟩ := h
    exact ⟨more ++ [.serving c], by simp, by simp, fun _ _ => .inr ⟨more, rfl⟩⟩
  | finish => exact h.elim

namespace World
variable {ms : List Mark} {b : Bench} {now w v x : World} {t u : TaskId} {c : ClientId}
  {fs base : List Frame} {s : Signal}
  {i : Input} {l : Landing}

/-! ### Who is added -/

theorem Admits.of_same (clients : v.clients = w.clients) (connections : v.connections = w.connections)
    (history : v.history = w.history) : w.Admits v where
  clients _ := clients ▸ List.Sublist.refl _
  links _ k found := ⟨k, connections ▸ found, id⟩
  history := history ▸ List.suffix_refl _

theorem Nudges.admits {H : TaskId → Prop} (h : Nudges H w v) : w.Admits v :=
  .of_same (h.same fun _ _ _ _ _ _ => rfl) (h.same fun _ _ _ _ _ _ => rfl) (h.same fun _ _ _ _ _ _ => rfl)

theorem clients_land (w : World) (t : TaskId) (l : Landing) : (w.land t l).clients = w.clients :=
  land_same (fun h => h.same fun _ _ _ _ _ _ => rfl) (fun _ _ _ _ _ => rfl) w t l

theorem land_admits (w : World) (t : TaskId) (l : Landing) : w.Admits (w.land t l) :=
  .of_same (clients_land w t l)
    (land_same (fun h => h.same fun _ _ _ _ _ _ => rfl) (fun _ _ _ _ _ => rfl) w t l)
    (land_same (fun h => h.same fun _ _ _ _ _ _ => rfl) (fun _ _ _ _ _ => rfl) w t l)

theorem stopped_admits (w : World) (t u : TaskId) : w.Admits (w.stopped t u) := by
  have freed : w.Admits (w.modifyTask u fun k => { k with watchers := [.report t u] }) := .of_same rfl rfl rfl
  exact freed.trans rfl (cancel_nudges _ u).admits

theorem Aside.admits (h : Aside t w v) : w.Admits v := by
  cases h with
  | alike h => exact h.admits
  | stop u => exact stopped_admits w t u
  | forestall p =>
    have begun : w.Admits (w.spawn (.follow p) fun f => [.report t f]).2 := .of_same rfl rfl rfl
    exact begun.trans rfl (stopped_admits _ t _)
  | @enroll members _ =>
    obtain ⟨ks, js, eq, -⟩ := enroll_eq w t members
    rw [eq]
    exact .of_same rfl rfl rfl
  | files | call | process | launch | spawn | follow => exact .of_same rfl rfl rfl

theorem Deeds.admits (h : now.Deeds now v) : now.Admits v := by
  induction h with
  | refl => exact .refl _
  | tail steps step ih =>
    refine ih.trans (Deeds.current steps) ?_
    cases step with
    | aside h => exact h.admits
    | slots | gauge | render | discard | call | hire => exact .of_same rfl rfl rfl
    | cancel => exact (cancel_nudges _ _).admits

theorem Stirs.admits (h : Stirs i w v) : w.Admits v := by
  induction h with
  | refl => exact .refl _
  | tail steps step ih =>
    refine ih.trans (Stirs.rest steps).2.2.2.1 ?_
    cases step with
    | alike h => exact h.admits
    | later | child | enables | dates | taken | counts | spawn => exact .of_same rfl rfl rfl
    | nudge h => exact (Nudges.one h).admits
    | cancel => exact (cancel_nudges _ _).admits

/-- Whatever happens, connections that are over stay over, and only a conversation that begins adds a client. -/
theorem Sane.apply_admits (h : w.Sane) (i : Input) : w.Admits (w.apply i) := by
  have happens := w.apply_happens i
  generalize w.apply i = v at *
  cases happens with
  | moves running =>
    obtain ⟨x, l, deeds, -, eq⟩ := h.reaches running
    rw [eq]
    exact deeds.admits.trans deeds.current (land_admits x _ l)
  | @resumes t rest =>
    obtain ⟨ks, cur, eq⟩ := resume_eq { w with queue := rest } t
    rw [eq]
    exact .of_same rfl rfl rfl
  | forgets | launches | subscribes => exact .of_same rfl rfl rfl
  | stirs stirred => exact stirred.admits

theorem Admits.parted (h : w.Admits v) (parted : w.IsParted c) : v.IsParted c := by
  obtain ⟨k, found, link⟩ := Option.map_eq_some_iff.1 parted
  obtain ⟨k', found', kept⟩ := h.links c k found
  rw [IsParted, found']
  exact congrArg some (kept link)

theorem Admits.connected (h : w.Admits v) (there : c < w.connections.length) : c < v.connections.length := by
  obtain ⟨k, found, -⟩ := h.links c _ (List.getElem?_eq_getElem there)
  exact (List.getElem?_eq_some_iff.1 found).1

theorem Nudges.clients {H : TaskId → Prop} (h : Nudges H w v) : v.clients = w.clients := h.same fun _ _ _ _ _ _ => rfl

/-- Nobody but the running task adds or drops clients. -/
theorem apply_clients (still : i = .tick → w.current = none) : (w.apply i).clients = w.clients := by
  cases i with
  | tick =>
    show w.tick.clients = w.clients
    cases queue : w.queue with
    | nil => rw [tick_idle (still rfl) queue]
    | cons j rest =>
      rw [tick_job (still rfl) queue]
      cases j with
      | resume t =>
        simp only [perform, World.resume]
        split
        · split
          · rfl
          · rfl
        · rfl
      | forget => rfl
      | joined g => exact (join_nudges (H := anyone) { w with queue := rest } g).clients
      | report t f => exact (learn_nudges (H := anyone) { w with queue := rest } t f).clients
  | jump =>
    simp only [World.apply]
    split
    · obtain ⟨now, -, nudges⟩ := jump_nudges (H := anyone) w
      exact nudges.clients
    · rfl
  | ring t => exact (ringTask_nudges (H := anyone) w t).clients
  | begin op =>
    simp only [World.apply]
    split
    · rfl
    · rfl
  | cancel t =>
    simp only [World.apply]
    split
    · exact (cancel_nudges w t).clients
    · rfl
  | welcome c path =>
    simp only [World.apply, welcome]
    split
    · rfl
    · rfl
  | arrive c x =>
    simp only [World.apply, arrive]
    split
    · rfl
    · split
      · rfl
      · exact (wakeReceiver_nudges (H := anyone) _ c).clients
  | pass | queue | subscribe | find | compiler | connect | breakLink | enableMetrics | setTime => rfl

/-! ### Conversations -/

/-- A cancellation reaches the conversation with the client. -/
def CutsOff (w : World) (c : ClientId) : Prop :=
  ∃ t f fs, w.current = some (t, f :: fs, .cancelled) ∧ f.client? = some c

/-- What a step makes of a conversation above the frames `base` of the task `t`: it goes on, its client has left, a
fault ends it, or it is cancelled. -/
inductive Spoken (w : World) (t : TaskId) (c : ClientId) (base : List Frame) (v : World) : Prop
  | goes {x : World} {l : Landing} (lands : v = x.land t l) (grown : w.tasks.length ≤ x.tasks.length)
      (puts : l.Puts (Conversing c) base)
  | left (clients : v.clients = w.clients.erase c)
  | broken (f : Fault) (crashed : .crashed c f ∈ v.history) (parted : v.IsParted c)
  | cut (cut : w.CutsOff c) (parted : v.IsParted c)

theorem isParted_setLink {k : Connection} (found : w.connections[c]? = some k) : (w.setLink c .over).IsParted c := by
  simp [IsParted, setLink, modifyConnection, found]

theorem breakOff_spoken {k : Connection} (found : w.connections[c]? = some k) (f : Fault) :
    w.Spoken t c base (w.breakOff t base c f) :=
  .broken f List.mem_cons_self (isParted_setLink found)

theorem serves_spoken (data : String) (taken : Connection → Connection) :
    w.Spoken t c base ((w.modifyConnection c taken).call t (.serving c :: base) (.handle c data)) :=
  .goes (l := .go (.serving c :: base) _) rfl (Nat.le_refl _) ⟨[.serving c], rfl, .inr ⟨[], rfl⟩⟩

theorem awaits_spoken : w.Spoken t c base (w.park t (.receiving c :: base) (.message c)) :=
  .goes (l := .park (.receiving c :: base) (.message c)) rfl (Nat.le_refl _)
    ⟨[.receiving c], nofun, rfl, fun _ calm => .inl ⟨rfl, calm⟩⟩

theorem receive_spoken {k : Connection} (found : w.connections[c]? = some k) :
    w.Spoken t c base (w.receive t base c) := by
  simp only [receive, found]
  split
  · exact breakOff_spoken found _
  · split
    · exact awaits_spoken
    · split
      · exact serves_spoken _ _
      · exact .left rfl

theorem received_spoken (w : World) (t : TaskId) (base : List Frame) (c : ClientId) :
    w.Spoken t c base (w.received t base c) := by
  unfold received
  split
  · exact serves_spoken _ _
  · exact .left rfl
  · exact awaits_spoken

theorem handlingFailed_spoken {k : Connection} (found : w.connections[c]? = some k) (f : Fault) :
    w.Spoken t c base (w.handlingFailed t base c f) := by
  unfold handlingFailed
  split
  · exact .left rfl
  · exact breakOff_spoken found _

theorem abort_spoken {k : Connection} {f : Frame} (found : w.connections[c]? = some k)
    (running : w.current = some (t, f :: base, .cancelled)) (talks : f = .serving c ∨ f = .receiving c) :
    w.Spoken t c base (w.abort t base f) := by
  rcases talks with rfl | rfl
  · exact .cut ⟨t, _, base, running, rfl⟩ (isParted_setLink found)
  · exact .cut ⟨t, _, base, running, rfl⟩ (isParted_setLink found)

theorem Flight.tick_spoken {pre : List Frame} (h : Flight ms b w) (running : w.current = some (t, pre ++ base, s))
    (converses : Conversing c pre s) (there : c < w.connections.length) : w.Spoken t c base w.tick := by
  have found := List.getElem?_eq_getElem there
  have above : (∀ x l, w.Deeds w x → Next w t (pre ++ base) s l x.records → l.Above (.serving c :: base)) →
      w.Spoken t c base (w.move t (pre ++ base) s) := by
    intro stays
    obtain ⟨x, l, deeds, next, eq⟩ := h.sane.reaches running
    exact .goes eq deeds.grown.length (stays x l deeds next).puts
  rw [tick_running running]
  rcases converses with ⟨rfl, calm⟩ | ⟨_ | ⟨f, above'⟩, rfl⟩
  · cases s with
    | value v => exact received_spoken w t base c
    | cancelled => exact abort_spoken found running (.inr rfl)
    | start | fault => exact calm.elim
  · cases s with
    | start op => exact above fun _ _ _ next => next.over id
    | value v => exact receive_spoken found
    | fault f => exact handlingFailed_spoken found f
    | cancelled => exact abort_spoken found running (.inl rfl)
  · exact above fun _ _ _ next => Landing.Above.trans next.below ⟨above', by simp⟩

/-- Whatever happens, a conversation that is under way goes on until its client leaves, a fault ends it, or it is
cancelled. -/
theorem Flight.apply_converses (h : Flight ms b w) (allowed : i.IsPublic) (there : c < w.connections.length)
    (converses : w.Sits (Conversing c) t base) : (w.apply i).Sits (Conversing c) t base ∨
      (w.apply i).clients = w.clients.erase c ∨ (w.apply i).IsParted c ∧
        ((∃ f, .crashed c f ∈ (w.apply i).history) ∨ i = .tick ∧ w.CutsOff c) := by
  by_cases steps : w.Steps i t
  · obtain ⟨rfl, fs, s, running⟩ := steps
    obtain ⟨pre, rfl, at_⟩ := h.sits_running converses running
    have spoken : w.Spoken t c base (w.apply .tick) := h.tick_spoken running at_ there
    cases spoken with
    | goes lands grown puts => exact .inl (lands ▸ sits_land puts (Nat.lt_of_lt_of_le (h.there running) grown))
    | left clients => exact .inr (.inl clients)
    | broken f crashed parted => exact .inr (.inr ⟨parted, .inl ⟨f, crashed⟩⟩)
    | cut cut parted => exact .inr (.inr ⟨parted, .inr ⟨rfl, cut⟩⟩)
  · refine .inl (h.apply_sits allowed converses ?_ fun _ _ tick _ running => absurd ⟨tick, _, _, running⟩ steps)
    rintro pre s s' (⟨rfl, -⟩ | above) - - calm
    · exact .inl ⟨rfl, calm⟩
    · exact .inr above

end World
end InkPreview.Live
