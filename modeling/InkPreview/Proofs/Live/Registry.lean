import InkPreview.Proofs.Live.Asking
import InkPreview.Proofs.Live.Audience
import InkPreview.Proofs.Live.Exits
import Mathlib.Data.List.Induction
/-!
The list of clients that updates are sent to. As long as conversations begin with a welcome, one for
each client, no client is listed twice, and a client that is listed is in a conversation that goes
on, unless a fault or a cancellation has ended it: these leave the client behind in the list. Main
statement: `clients_attended`.
-/
namespace InkPreview.Live

/-- The operation is a conversation with the client, or begins one side by side with others. -/
inductive Op.Converses (c : ClientId) : Op → Prop
  | converse : Converses c (.converse c)
  | together {op : Op} {ops : List Op} (mem : op ∈ ops) (h : Converses c op) : Converses c (.together ops)

/-- No conversation begins with the operation. -/
def Op.IsSilent (op : Op) : Prop := ∀ c, ¬ op.Converses c

def Action.IsSilent : Action → Prop
  | .ask op => op.IsSilent
  | _ => True

def Input.IsSilent : Input → Prop
  | .begin op | .queue op => op.IsSilent
  | .subscribe y => y.Does Action.IsSilent
  | _ => True

/-- What may be about to begin where conversations begin with a welcome. -/
def Op.MayTalk (op : Op) : Prop := op.IsSilent ∨ ∃ c, op = .converse c

theorem Op.not_isSilent_converse (c : ClientId) : ¬ (Op.converse c).IsSilent := fun silent => silent c .converse

theorem Op.Opens.silent {op op' : Op} {pushed : List Frame} (h : op.Opens pushed op') : op'.IsSilent := by
  intro c talks
  cases h <;> cases talks

theorem Frame.Opens.silent {f : Frame} {op : Op} {pushed : List Frame} (h : f.Opens pushed op) : op.IsSilent := by
  intro c talks
  cases h <;> cases talks

theorem allows_silent : Allows Action.IsSilent Op.IsSilent where
  edit _ _ _ := nofun
  close _ _ := nofun
  ask _ := id
  compile _ := nofun
  opens _ _ _ := Frame.Opens.silent

theorem Op.MayTalk.member {ops : List Op} (h : (Op.together ops).MayTalk) {op : Op} (mem : op ∈ ops) : op.IsSilent := by
  rcases h with silent | ⟨c, eq⟩
  · exact fun c talks => silent c (.together mem talks)
  · cases eq

namespace World
variable {ms : List Mark} {b : Bench} {w v start : World} {t u : TaskId} {c : ClientId} {fs : List Frame} {s : Signal}
  {i : Input} {past inputs : List Input}

theorem closed_silent : Closed Action.IsSilent Op.MayTalk Op.MayTalk where
  allows :=
    { edit := fun doc text h => .inl (allows_silent.edit doc text h)
      close := fun doc h => .inl (allows_silent.close doc h)
      ask := fun _ => .inl
      compile := fun text => .inl (allows_silent.compile text)
      opens := fun _ _ _ h => .inl h.silent }
  more _ := id
  opens _ _ _ _ h := .inl h.silent
  together _ may _ mem := .inl (may.member mem)
  follow _ := .inl nofun
  background _ := .inl nofun

/-- Conversations begin with a welcome alone. -/
def Reserved (w : World) : Prop := w.Licensed Action.IsSilent Op.MayTalk Op.MayTalk

theorem Reserved.apply (h : w.Reserved) (sane : w.Sane) (silent : i.IsSilent) : (w.apply i).Reserved := by
  refine Licensed.apply h closed_silent sane ⟨?_, ?_, ?_⟩
  · rintro op rfl
    exact .inl silent
  · intro op asked
    cases i with
    | queue =>
      cases asked
      exact .inl silent
    | welcome c =>
      cases asked
      exact .inr ⟨c, rfl⟩
    | _ => exact asked.elim
  · rintro y rfl
    exact silent

/-- No step goes on to begin a conversation. -/
theorem Reserved.tick (h : w.Reserved) (sane : w.Sane) (running : w.current = some (t, fs, s)) (gs : List Frame) :
    w.tick.current ≠ some (u, gs, .start (.converse c)) := by
  intro now
  obtain ⟨x, l, deeds, next, eq⟩ := sane.reaches running
  obtain ⟨-, starts⟩ := next.allowed allows_silent sane.subscribers (asked_public (sane.running t fs s running).1)
    h.subscribers (h.running t fs s running).1
  have silent : l.Allowed Op.IsSilent := starts fun _ _ _ _ opens => opens.silent
  rw [tick_running running, eq, land_current] at now
  cases l with
  | go =>
    cases now
    exact Op.not_isSilent_converse c (silent _ _ rfl)
  | park | turn | timed | finish => cases now

/-! ### Who is about to be added -/

/-- The task is to begin the conversation with the client. -/
def Awaits (w : World) (t : TaskId) (c : ClientId) : Prop :=
  ∃ q, w.post? t = some q ∧ q.signal = .start (.converse c) ∧ q.wait ≠ .ended

theorem Flight.awaits_running (h : Flight ms b w) (running : w.current = some (t, fs, .start (.converse c))) :
    w.Awaits t c := by
  exact ⟨_, h.post?_running running, rfl, nofun⟩

/-- Tasks beyond the first `n` are about to begin something that `licit` allows, unless they have been told that it is
over. -/
def Newborn (licit : Op → Prop) (ks : List Task) (n : Nat) : Prop :=
  ∀ (u : TaskId) k, ks[u]? = some k → n ≤ u → k.signal.IsCalm ∨ ∃ op, k.signal = .start op ∧ licit op

section
variable {licit : Op → Prop} {xs ys : List Task} {n : Nat}

variable (licit) in
theorem newborn_old (ks : List Task) : Newborn licit ks ks.length := fun _ _ found late =>
  absurd (List.getElem?_eq_some_iff.1 found).1 (Nat.not_lt.2 late)

theorem Newborn.grown (h : Newborn licit xs n) (grown : Grown licit xs ys) : Newborn licit ys n := by
  intro u k found late
  rcases grown.task u k found with ⟨k', old, -, same | calm⟩ | ⟨-, -, signal⟩
  · exact same ▸ h u k' old late
  · exact .inl calm
  · exact signal

theorem Newborn.modify (h : Newborn licit xs n) (there : t < n) (f : Task → Task) : Newborn licit
    (xs.modify t f) n := by
  intro u k found late
  have apart : t ≠ u := Nat.ne_of_lt (Nat.lt_of_lt_of_le there late)
  exact h u k (by simpa [List.getElem?_modify, apart] using found) late

theorem Newborn.land {x : World} (h : Newborn licit x.tasks n) (there : t < n) (l : Landing) :
    Newborn licit (x.land t l).tasks n := by
  refine Newborn.grown ?_ (land_grown licit x t l)
  cases l with
  | go => exact h
  | park | turn | timed | finish => exact h.modify there _

end

/-- A task that is new is about to begin what the step, or the input, has it begin. -/
theorem Flight.apply_newborn (h : Flight ms b w) (allowed : i.IsPublic) (fresh : w.tasks.length ≤ u) {q : Post}
    (found : (w.apply i).post? u = some q) :
    q.signal.IsCalm ∨ ∃ op, q.signal = .start op ∧ (w.Begins op ∨ i.Queues op ∨ i = .begin op) := by
  have next := h.apply allowed
  have there := next.post?_there found
  have happens := w.apply_happens i
  generalize w.apply i = v at *
  -- Unless the task runs at once, its post is read off the list of tasks.
  have read : ∀ {licit : Op → Prop}, (∀ fs s, v.current ≠ some (u, fs, s)) → Newborn licit v.tasks w.tasks.length →
      q.signal.IsCalm ∨ ∃ op, q.signal = .start op ∧ licit op := by
    intro licit apart newborn
    rw [post?_other apart] at found
    obtain ⟨k, at_u, rfl⟩ := Option.map_eq_some_iff.1 found
    exact newborn u k at_u fresh
  cases happens with
  | @moves t fs s running =>
    have alive := h.there running
    obtain ⟨x, l, deeds, -, eq⟩ := h.sane.reaches running
    have newborn : Newborn w.Begins (w.move t fs s).tasks w.tasks.length := by
      rw [eq]
      exact ((newborn_old w.Begins w.tasks).grown deeds.grown).land alive l
    have apart (gs : List Frame) (s' : Signal) (now : (w.move t fs s).current = some (u, gs, s')) : False := by
      rw [eq, land_current] at now
      cases l with
      | go =>
        cases now
        exact absurd alive (Nat.not_lt.2 fresh)
      | park | turn | timed | finish => cases now
    rcases read apart newborn with calm | ⟨op, same, begins⟩
    · exact .inl calm
    · exact .inr ⟨op, same, .inl begins⟩
  | @resumes t rest =>
    refine absurd there (Nat.not_lt.2 ?_)
    rcases resume_cases { w with queue := rest } t with same | ⟨k, -, -, eq⟩
    · rw [same]
      exact fresh
    · rw [eq]
      exact (List.length_modify _ _ _).symm ▸ fresh
  | forgets | subscribes => exact absurd there (Nat.not_lt.2 fresh)
  | @launches op =>
    obtain rfl : u = w.tasks.length := by
      have short : u < w.tasks.length + 1 := by simpa [World.launch] using there
      exact Nat.le_antisymm (Nat.le_of_lt_succ short) fresh
    have running : (w.launch op).2.current = some (w.tasks.length, [], .start op) := rfl
    obtain rfl := Option.some.inj (found.symm.trans (next.post?_running running))
    exact .inr ⟨op, rfl, .inr (.inr rfl)⟩
  | stirs stirred =>
    have away (fs : List Frame) (s : Signal) (now : v.current = some (u, fs, s)) : False :=
      Nat.not_lt.2 fresh (h.there (stirred.rest.2.2.2.1 ▸ now))
    rcases read away ((newborn_old _ w.tasks).grown stirred.grown) with calm | ⟨op, same, asked⟩
    · exact .inl calm
    · exact .inr ⟨op, same, .inr (.inl asked)⟩

/-- A task that has just taken a step is not about to begin a conversation. -/
theorem Flight.tick_spent (h : Flight ms b w) (reserved : w.Reserved) (running : w.current = some (t, fs, s)) :
    ¬ w.tick.Awaits t c := by
  rintro ⟨q, found, signal, lives⟩
  have next : Flight _ b w.tick := h.apply (i := .tick) trivial
  by_cases runs : ∃ gs s', w.tick.current = some (t, gs, s')
  · obtain ⟨gs, s', now⟩ := runs
    obtain rfl := Option.some.inj (found.symm.trans (next.post?_running now))
    obtain rfl : s' = _ := signal
    exact reserved.tick h.sane running gs now
  · obtain ⟨x, l, deeds, -, eq⟩ := h.sane.reaches running
    have there := Nat.lt_of_lt_of_le (h.there running) deeds.grown.length
    have step : w.tick = x.land t l := (tick_running running).trans eq
    rw [step] at found runs
    have waits {x : World} {gs : List Frame} {wait : Wait} (there : t < x.tasks.length)
        (found : (x.park t gs wait).post? t = some q) : False := by
      obtain ⟨s', wait', found', calm⟩ := land_post there gs wait
      obtain rfl := Option.some.inj (found.symm.trans found')
      obtain rfl : s' = _ := signal
      exact calm
    cases l with
    | go gs s' => exact runs ⟨gs, s', rfl⟩
    | park gs wait => exact waits there found
    | turn gs => exact waits there found
    | timed gs wait n => exact waits (x := x.setAlarm t n) there found
    | finish r =>
      rw [post?_other fun gs s' now => runs ⟨gs, s', now⟩,
        show (x.land t (.finish r)).tasks[t]? = _ from finish_task r (List.getElem?_eq_getElem there)] at found
      obtain rfl := Option.some.inj found
      exact lives rfl

theorem tasks_welcome (w : World) (c : ClientId) (path : String) :
    (w.welcome c path).tasks.length ≤ w.tasks.length + 1 := by
  unfold welcome
  split
  · exact Nat.le_of_eq List.length_append
  · exact Nat.le_succ _

/-- Who is about to begin a conversation was so before and has not taken the step, or has been made for a client that
is welcomed. -/
theorem Flight.awaits_before (h : Flight ms b w) (reserved : w.Reserved) (allowed : i.IsPublic) (silent : i.IsSilent)
    (awaits : (w.apply i).Awaits t c) :
    (w.Awaits t c ∧ ¬ w.Steps i t) ∨ t = w.tasks.length ∧ ∃ path, i = .welcome c path := by
  have next := h.apply allowed
  by_cases steps : w.Steps i t
  · obtain ⟨rfl, fs, s, running⟩ := steps
    exact absurd awaits (h.tick_spent reserved running)
  obtain ⟨q', found', signal, lives⟩ := awaits
  by_cases there : t < w.tasks.length
  · obtain ⟨q, found⟩ : ∃ q, w.post? t = some q :=
      ⟨_, List.getElem?_eq_getElem (by simpa [bench_length] using there)⟩
    refine .inl ⟨⟨q, found, ?_⟩, steps⟩
    obtain ⟨q'', found'', same⟩ := h.apply_post allowed found steps
    obtain rfl := Option.some.inj (found'.symm.trans found'')
    rcases same with rfl | ⟨idle, -, same | calm⟩
    · exact ⟨signal, lives⟩
    · refine ⟨same ▸ signal, fun ceased => lives ?_⟩
      have apart : ∀ fs s, w.current ≠ some (t, fs, s) := by
        intro fs s running
        obtain rfl := Option.some.inj (found.symm.trans (h.post?_running running))
        exact idle rfl
      rw [post?_other apart] at found
      obtain ⟨k, at_t, rfl⟩ := Option.map_eq_some_iff.1 found
      have firm : k.wait.IsFirm := .inr ceased
      have stays := (h.stays at_t firm).apply firm h i fun turn => nomatch ceased.symm.trans turn
      obtain rfl := Option.some.inj (found'.symm.trans (stays.post firm next))
      exact ceased
    · rw [signal] at calm
      exact calm.elim
  · have fresh := Nat.not_lt.1 there
    rcases h.apply_newborn allowed fresh found' with calm | ⟨op, same, begins⟩
    · rw [signal] at calm
      exact calm.elim
    · obtain rfl : Op.converse c = op := Signal.start.inj (signal.symm.trans same)
      rcases begins with ⟨running, mem, -⟩ | asked | rfl
      · exact absurd ((reserved.running _ _ _ running).2.member mem) (Op.not_isSilent_converse c)
      · cases i with
        | welcome d path =>
          cases asked
          have last : t < w.tasks.length + 1 := Nat.lt_of_lt_of_le (next.post?_there found') (tasks_welcome w c path)
          exact .inr ⟨Nat.le_antisymm (Nat.le_of_lt_succ last) fresh, path, rfl⟩
        | queue =>
          cases asked
          exact absurd silent (Op.not_isSilent_converse c)
        | _ => exact asked.elim
      · exact absurd silent (Op.not_isSilent_converse c)

/-! ### Who is listed -/

def Welcomed (past : List Input) (c : ClientId) : Prop := ∃ path, .welcome c path ∈ past

theorem Welcomed.later (h : Welcomed past c) : Welcomed (past ++ [i]) c := h.imp fun _ mem => List.mem_append_left _ mem

/-- In the course of the run a cancellation has reached the conversation with the client. -/
def WasCut (start : World) (inputs : List Input) (c : ClientId) : Prop :=
  ∃ before, before ++ [.tick] <+: inputs ∧ (start.run before).CutsOff c

/-- The conversation with the client is over, for a reason that leaves the client behind. -/
def Stranded (start : World) (inputs : List Input) (c : ClientId) : Prop :=
  (start.run inputs).IsParted c ∧ ((∃ f, .crashed c f ∈ (start.run inputs).history) ∨ WasCut start inputs c)

/-- Who is about to begin a conversation will be the first to begin it with the client, and who is listed is in a
conversation or has been left behind. -/
structure Registry (start : World) (past : List Input) (w : World) : Prop where
  nodup : w.clients.Nodup
  awaited : ∀ t c, w.Awaits t c →
    Welcomed past c ∧ c < w.connections.length ∧ c ∉ w.clients ∧ ∀ u, w.Awaits u c → u = t
  listed : ∀ c ∈ w.clients, Welcomed past c ∧ c < w.connections.length ∧
    ((∃ t base, w.Sits (Conversing c) t base) ∨ Stranded start past c)

theorem run_concat (start : World) (past : List Input) (i : Input) :
    start.run (past ++ [i]) = (start.run past).apply i := run_append start past [i]

theorem Stranded.later (h : Stranded start past c) (sane : (start.run past).Sane) (i : Input) :
    Stranded start (past ++ [i]) c := by
  have admits := sane.apply_admits i
  obtain ⟨parted, why⟩ := h
  rw [← run_concat] at admits
  refine ⟨admits.parted parted, why.imp ?_ ?_⟩
  · exact fun ⟨f, crashed⟩ => ⟨f, admits.history.subset crashed⟩
  · exact fun ⟨before, early, cut⟩ => ⟨before, early.trans (List.prefix_append _ _), cut⟩

theorem receive_clients (w : World) (t : TaskId) (fs : List Frame) (c : ClientId) :
    (w.receive t fs c).clients.Sublist w.clients := by
  unfold receive
  split
  · exact .refl _
  · split
    · exact .refl _
    · split
      · exact clients_land w t (.park (.receiving c :: fs) (.message c)) ▸ .refl _
      · split
        · exact .refl _
        · exact List.erase_sublist

/-- A step lists no client but one with which a conversation begins. -/
theorem Sane.apply_listed (h : w.Sane) (i : Input) : (w.apply i).clients.Sublist w.clients ∨
    ∃ t fs c, i = .tick ∧ w.current = some (t, fs, .start (.converse c)) ∧
      (w.apply i).clients.Sublist (w.clients ++ [c]) := by
  by_cases begins : ∃ t fs c, i = .tick ∧ w.current = some (t, fs, .start (.converse c))
  · obtain ⟨t, fs, c, rfl, running⟩ := begins
    refine .inr ⟨t, fs, c, rfl, running, ?_⟩
    show w.tick.clients.Sublist _
    rw [tick_running running]
    exact receive_clients { w with clients := w.clients ++ [c] } t fs c
  · by_cases idle : i = .tick → w.current = none
    · exact .inl (apply_clients idle ▸ .refl _)
    · obtain rfl : i = .tick := by
        by_contra other
        exact idle fun tick => absurd tick other
      exact .inl ((h.apply_admits .tick).clients fun t fs c running => begins ⟨t, fs, c, rfl, running⟩)

/-- A conversation that begins goes on, or its client has left, or a fault has ended it. -/
theorem Flight.tick_begins (h : Flight ms b w) (running : w.current = some (t, fs, .start (.converse c)))
    (there : c < w.connections.length) : (∃ t base, w.tick.Sits (Conversing c) t base) ∨
      w.tick.clients = (w.clients ++ [c]).erase c ∨ w.tick.IsParted c ∧ ∃ f, .crashed c f ∈ w.tick.history := by
  let x : World := { w with clients := w.clients ++ [c] }
  have found : x.connections[c]? = some _ := List.getElem?_eq_getElem there
  have spoken : x.Spoken t c fs (x.receive t fs c) := receive_spoken found
  rw [tick_running running]
  show (∃ u base, (x.receive t fs c).Sits (Conversing c) u base) ∨ (x.receive t fs c).clients = x.clients.erase c ∨
    (x.receive t fs c).IsParted c ∧ ∃ f, .crashed c f ∈ (x.receive t fs c).history
  cases spoken with
  | goes lands grown puts =>
    exact .inl ⟨t, fs, lands ▸ sits_land puts (Nat.lt_of_lt_of_le (h.there running) grown)⟩
  | left clients => exact .inr (.inl clients)
  | broken f crashed parted => exact .inr (.inr ⟨parted, f, crashed⟩)
  | cut cut =>
    obtain ⟨u, f, gs, now, -⟩ := cut
    cases running.symm.trans now

/-- The client is the one with whom the running task is about to begin a conversation, as the last of `cs`. -/
def Joins (w : World) (i : Input) (cs : List ClientId) (c : ClientId) : Prop :=
  i = .tick ∧ cs = w.clients ++ [c] ∧ ∃ t fs, w.current = some (t, fs, .start (.converse c))

namespace Registry

/-- A client that is listed after a step was listed before, or is the one with whom a conversation begins. -/
theorem candidates (h : Registry start past w) (flight : Flight ms b w) (i : Input) : ∃ cs : List ClientId,
    (w.apply i).clients.Sublist cs ∧ cs.Nodup ∧ ∀ c ∈ cs, c ∈ w.clients ∨ w.Joins i cs c := by
  rcases flight.sane.apply_listed i with sub | ⟨t, fs, c, rfl, running, sub⟩
  · exact ⟨_, sub, h.nodup, fun c => .inl⟩
  · obtain ⟨-, -, fresh, -⟩ := h.awaited t c (flight.awaits_running running)
    have apart : ∀ d ∈ w.clients, ∀ e ∈ [c], d ≠ e := by simpa using fun d mem => ne_of_mem_of_not_mem mem fresh
    refine ⟨_, sub, List.nodup_append.2 ⟨h.nodup, List.nodup_singleton c, apart⟩, fun d mem => ?_⟩
    rcases List.mem_append.1 mem with old | new
    · exact .inl old
    · obtain rfl := List.mem_singleton.1 new
      exact .inr ⟨rfl, rfl, t, fs, running⟩

theorem apply_awaited (h : Registry start past w) (flight : Flight ms b w) (reserved : w.Reserved)
    (allowed : i.IsPublic)
    (silent : i.IsSilent) (welcome : ∀ c path, i = .welcome c path → c < w.connections.length ∧ ¬ Welcomed past c)
    (awaits : (w.apply i).Awaits t c) : Welcomed (past ++ [i]) c ∧ c < (w.apply i).connections.length ∧
      c ∉ (w.apply i).clients ∧ ∀ u, (w.apply i).Awaits u c → u = t := by
  have admits := flight.sane.apply_admits i
  obtain ⟨cs, sub, -, who⟩ := h.candidates flight i
  rcases flight.awaits_before reserved allowed silent awaits with ⟨before, rests⟩ | ⟨rfl, path, rfl⟩
  · obtain ⟨welcomed, there, fresh, alone⟩ := h.awaited t c before
    refine ⟨welcomed.later, admits.connected there, fun mem => ?_, fun u other => ?_⟩
    · rcases who c (sub.subset mem) with old | ⟨rfl, -, u, fs, running⟩
      · exact fresh old
      · obtain rfl := alone u (flight.awaits_running running)
        exact rests ⟨rfl, fs, _, running⟩
    · rcases flight.awaits_before reserved allowed silent other with ⟨before', -⟩ | ⟨-, path, rfl⟩
      · exact alone u before'
      · exact absurd welcomed (welcome c path rfl).2
  · obtain ⟨there, first⟩ := welcome c path rfl
    refine ⟨⟨path, by simp⟩, admits.connected there, fun mem => ?_, fun u other => ?_⟩
    · rcases who c (sub.subset mem) with old | ⟨tick, -⟩
      · exact first (h.listed c old).1
      · cases tick
    · rcases flight.awaits_before reserved allowed silent other with ⟨before, -⟩ | ⟨rfl, -⟩
      · exact absurd (h.awaited u c before).1 first
      · rfl

theorem apply_listed (h : Registry start past (start.run past)) (flight : Flight ms b (start.run past))
    (allowed : i.IsPublic) (mem : c ∈ ((start.run past).apply i).clients) :
    Welcomed (past ++ [i]) c ∧ c < ((start.run past).apply i).connections.length ∧
      ((∃ t base, ((start.run past).apply i).Sits (Conversing c) t base) ∨ Stranded start (past ++ [i]) c) := by
  have admits := flight.sane.apply_admits i
  have behind (parted : ((start.run past).apply i).IsParted c)
      (why : (∃ f, .crashed c f ∈ ((start.run past).apply i).history) ∨ i = .tick ∧ (start.run past).CutsOff c) :
      Stranded start (past ++ [i]) c := by
    rw [← run_concat] at parted why
    refine ⟨parted, why.imp id ?_⟩
    rintro ⟨rfl, cut⟩
    exact ⟨past, List.prefix_refl _, cut⟩
  obtain ⟨cs, sub, nodup, who⟩ := h.candidates flight i
  rcases who c (sub.subset mem) with old | ⟨rfl, rfl, t, fs, running⟩
  · obtain ⟨welcomed, there, ⟨t, base, sits⟩ | stranded⟩ := h.listed c old
    · refine ⟨welcomed.later, admits.connected there, ?_⟩
      rcases flight.apply_converses allowed there sits with sits | gone | ⟨parted, why⟩
      · exact .inl ⟨t, base, sits⟩
      · exact absurd mem (gone ▸ h.nodup.not_mem_erase)
      · exact .inr (behind parted why)
    · exact ⟨welcomed.later, admits.connected there, .inr (stranded.later flight.sane i)⟩
  · obtain ⟨welcomed, there, -⟩ := h.awaited t c (flight.awaits_running running)
    refine ⟨welcomed.later, admits.connected there, ?_⟩
    rcases flight.tick_begins running there with sits | gone | ⟨parted, crashed⟩
    · exact .inl sits
    · have gone : ((start.run past).apply .tick).clients = _ := gone
      exact absurd mem (gone ▸ nodup.not_mem_erase)
    · exact .inr (behind parted (.inl crashed))

theorem apply (h : Registry start past (start.run past)) (flight : Flight ms b (start.run past))
    (reserved : (start.run past).Reserved) (allowed : i.IsPublic) (silent : i.IsSilent)
    (welcome : ∀ c path, i = .welcome c path → c < (start.run past).connections.length ∧ ¬ Welcomed past c) :
    Registry start (past ++ [i]) (start.run (past ++ [i])) := by
  obtain ⟨cs, sub, nodup, -⟩ := h.candidates flight i
  rw [run_concat]
  exact ⟨nodup.sublist sub, fun t c => h.apply_awaited flight reserved allowed silent welcome,
    fun c => h.apply_listed flight allowed⟩

end Registry

/-- Every client is welcomed once at most, and not before it has connected. -/
def Welcoming (start : World) (inputs : List Input) : Prop := ∀ before c path, before ++ [.welcome c path] <+: inputs →
  c < (start.run before).connections.length ∧ ¬ Welcomed before c

/-- The conversation with the client is under way in some task. -/
def Talks (w : World) (c : ClientId) : Prop := ∃ t f, f ∈ w.stackOf t ∧ f.client? = some c

theorem Flight.talks (h : Flight ms b w) {base : List Frame} (sits : w.Sits (Conversing c) t base) : w.Talks c := by
  obtain ⟨pre, s, at_, place⟩ := sits
  have stack : w.stackOf t = pre ++ base := by
    rcases place with now | ⟨-, -, wait, found⟩
    · exact stackOf_running now
    · exact h.stackOf_post found
  rcases at_ with ⟨rfl, -⟩ | ⟨above, rfl⟩
  · exact ⟨t, .receiving c, by simp [stack], rfl⟩
  · exact ⟨t, .serving c, by simp [stack], rfl⟩

theorem run_registry (new : start.IsNew) (nobody : start.clients = [])
    (silent : ∀ y ∈ start.subscribers, y.Does Action.IsSilent) (allowed : ∀ i ∈ inputs, i.IsPublic ∧ i.IsSilent)
    (welcoming : start.Welcoming inputs) : (∃ ms b, Flight ms b (start.run inputs)) ∧ (start.run inputs).Reserved ∧
      Registry start inputs (start.run inputs) := by
  induction inputs using List.reverseRecOn with
  | nil =>
    have nowhere (u : TaskId) : start.post? u = none := by
      rw [post?_other fun fs s => new.current ▸ (Option.some_ne_none _).symm, new.tasks]
      rfl
    refine ⟨⟨_, _, new.flight⟩, new.licensed silent, ?_, fun t c awaits => ?_, fun c mem => ?_⟩
    · simp [run, nobody]
    · obtain ⟨q, found, -⟩ := awaits
      exact absurd (found.symm.trans (nowhere t)) (Option.some_ne_none _)
    · exact absurd (nobody ▸ mem) List.not_mem_nil
  | append_singleton past i ih =>
    obtain ⟨given, silent⟩ := allowed i (by simp)
    obtain ⟨⟨ms, b, flight⟩, reserved, registry⟩ := ih (fun j mem => allowed j (List.mem_append_left _ mem))
      fun before c path early => welcoming before c path (early.trans (List.prefix_append _ _))
    refine ⟨?_, ?_, registry.apply flight reserved given silent ?_⟩
    · exact ⟨_, _, run_concat start past i ▸ flight.apply given⟩
    · exact run_concat start past i ▸ reserved.apply flight.sane silent
    · rintro c path rfl
      exact welcoming past c path (List.prefix_refl _)

/-- No client is listed twice; and a client that is listed is in a conversation that goes on, or in
one that is over since a fault or a cancellation has ended it. A conversation that ends because its
client has left leaves nobody behind. -/
theorem clients_attended (new : start.IsNew) (nobody : start.clients = [])
    (silent : ∀ y ∈ start.subscribers, y.Does Action.IsSilent) (allowed : ∀ i ∈ inputs, i.IsPublic ∧ i.IsSilent)
    (welcoming : start.Welcoming inputs) : (start.run inputs).clients.Nodup ∧
      ∀ c ∈ (start.run inputs).clients, (start.run inputs).Talks c ∨ Stranded start inputs c := by
  obtain ⟨⟨ms, b, flight⟩, -, registry⟩ := run_registry new nobody silent allowed welcoming
  refine ⟨registry.nodup, fun c mem => (registry.listed c mem).2.2.imp ?_ id⟩
  exact fun ⟨t, base, sits⟩ => flight.talks sits

theorem welcoming_once {before after : List Input} {path : String}
    (connected : c < (start.run before).connections.length)
    (alone : ∀ d p, .welcome d p ∉ before ∧ .welcome d p ∉ after) :
    start.Welcoming (before ++ .welcome c path :: after) := by
  rintro past d p ⟨rest, split⟩
  rw [List.append_assoc, List.singleton_append] at split
  obtain ⟨rfl, rfl⟩ : past = before ∧ d = c := by
    rcases List.append_eq_append_iff.1 split with ⟨more, early, late⟩ | ⟨more, early, late⟩
    · cases more with
      | nil => exact ⟨by simpa using early.symm, (Input.welcome.inj (List.cons.inj late).1).1⟩
      | cons j more => exact absurd (early ▸ by simp [(List.cons.inj late).1]) (alone d p).1
    · cases more with
      | nil => exact ⟨by simpa using early, (Input.welcome.inj (List.cons.inj late).1).1.symm⟩
      | cons j more => exact absurd ((List.cons.inj late).2 ▸ by simp) (alone d p).2
  exact ⟨connected, fun ⟨p, mem⟩ => (alone d p).1 mem⟩

/-- A client connects, is welcomed, and sends an edit of a document whose name is a list. -/
def stranding : List Input :=
  [Input.connect fun _ => none] ++ Input.welcome 0 Web.conversationPath ::
    [.tick, .tick, .arrive 0 (.text "\x7b\"action\":\"edit\",\"document_id\":[1],\"text\":\"\"\x7d"),
      .tick, .tick, .tick, .tick, .tick]

theorem stranding_attended : (sample.run stranding).clients.Nodup ∧
    ∀ c ∈ (sample.run stranding).clients, (sample.run stranding).Talks c ∨ Stranded sample stranding c := by
  refine clients_attended isNew_sample rfl ?_ ?_ (welcoming_once (by decide) (by simp))
  · simp [sample, World.start, Subscriber.Does]
  · simp [stranding, Input.IsPublic, Input.IsSilent]

/-- The handling of the edit crashes, and the client stays listed though nothing goes on with its conversation. -/
theorem stranding_listed : (sample.run stranding).clients = [0] ∧ (sample.run stranding).IsParted 0 ∧
    ¬ (sample.run stranding).Talks 0 := by
  have idle : (sample.run stranding).current = none := Option.isNone_iff_eq_none.1 (by decide +kernel)
  have spent : (sample.run stranding).tasks.all (·.frames.isEmpty) = true := by decide +kernel
  refine ⟨by decide +kernel, by unfold IsParted; decide +kernel, ?_⟩
  rintro ⟨t, f, mem, -⟩
  rw [stackOf_idle idle] at mem
  cases found : (sample.run stranding).tasks[t]? with
  | none => simp [found] at mem
  | some k =>
    have empty := List.all_eq_true.1 spent k (List.mem_of_getElem? found)
    simp [found, List.isEmpty_iff.1 empty] at mem

end World
end InkPreview.Live
