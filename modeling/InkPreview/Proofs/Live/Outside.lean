import InkPreview.Live.Startup
/-!
Runs as they are seen from outside: what may be asked of the program, and the marks that a run
leaves. A mark is read off the state before a step; the step itself is `tick`.
-/
namespace InkPreview.Live

/-- What may be asked for. The work behind an edit and the following of a process are begun by the
program alone. -/
inductive Op.IsPublic : Op → Prop
  | edit (doc : DocId) (text : String) : IsPublic (.edit doc text)
  | close (doc : DocId) : IsPublic (.close doc)
  | waitIdle (doc : DocId) : IsPublic (.waitIdle doc)
  | closeAll : IsPublic .closeAll
  | stop : IsPublic .stop
  | compile (text : String) : IsPublic (.compile text)
  | exportAs (doc text : String) (kind : ExportKind) (title : Option String) :
      IsPublic (.exportAs doc text kind title)
  | handle (c : ClientId) (data : String) : IsPublic (.handle c data)
  | converse (c : ClientId) : IsPublic (.converse c)
  | send (c : ClientId) (m : Web.Message) : IsPublic (.send c m)
  | request (r : Web.Request) : IsPublic (.request r)
  | sleep (micros : Int) : IsPublic (.sleep micros)
  | together {ops : List Op} (h : ∀ op ∈ ops, IsPublic op) : IsPublic (.together ops)
  | reportedEdit (doc : DocId) (text : String) : IsPublic (.reportedEdit doc text)

def Action.IsPublic : Action → Prop
  | .ask op => op.IsPublic
  | _ => True

/-- Everything a subscriber does, at whatever call. -/
def Subscriber.IsPublic : Subscriber → Prop
  | .script acts => ∀ n, ∀ a ∈ acts n, a.IsPublic
  | .clients => True

def Input.IsPublic : Input → Prop
  | .begin op | .queue op => op.IsPublic
  | .subscribe s => s.IsPublic
  | _ => True

/-- Nothing has happened yet. -/
structure World.IsNew (w : World) : Prop where
  slots : w.slots = []
  tasks : w.tasks = []
  groups : w.groups = []
  processes : w.processes = []
  alarms : w.alarms = []
  queue : w.queue = []
  current : w.current = none
  calls : w.calls.length = w.subscribers.length
  subscribers : ∀ s ∈ w.subscribers, s.IsPublic

theorem World.isNew_start (setup : Setup) (finder : Finder) (gallery : Gallery)
    {subscribers : List Subscriber} (h : ∀ s ∈ subscribers, s.IsPublic) :
    (start setup finder gallery subscribers).IsNew :=
  ⟨rfl, rfl, rfl, rfl, rfl, rfl, rfl, by simp [start], h⟩

/-! ### Marks -/

/-- An edit as it gets its generation. The worker is the task that will compile its text. -/
structure Edit where
  time : Nat
  slot : SlotId
  doc : DocId
  generation : Nat
  text : String
  worker : Option TaskId

inductive Mark
  | edited (e : Edit)
  /-- The compiler is asked for, under the lock of the request's slot. -/
  | started (time : Nat) (t : TaskId) (r : Request) (text : String)
  /-- The compiler has answered, or the compile has crashed. -/
  | ended (t : TaskId) (r : Request) (o : Except Fault Outcome)
  /-- A subscriber is called with an update. -/
  | called (i : Nat) (u : Update)

namespace World

/-- The task that an edit of a document hands its text to. -/
def workerFor (w : World) (doc : DocId) (text : String) : Option TaskId :=
  match doc with
  | .name _ => if needsCompile text then some w.tasks.length else none
  | _ => none

def editBegun (w : World) (doc : DocId) (text : String) : Edit :=
  let (s, v) := w.ensureSlot doc
  ⟨w.clock, s, doc, v.generationOf s + 1, text, w.workerFor doc text⟩

/-- What the next step of the running task is seen as. That a subscriber has been called shows in
the number of its calls. -/
def mark? (w : World) : Option Mark :=
  match w.current with
  | some (_, _, .start (.edit doc text)) => some (.edited (w.editBegun doc text))
  | some (t, .holding r :: _, .start (.compile text)) => some (.started w.clock t r text)
  | some (t, .holding r :: _, .value (.outcome o)) => some (.ended t r (.ok o))
  | some (t, .holding r :: _, .fault f) => some (.ended t r (.error f))
  | some (_, .notifying u (i :: _) :: _, _) =>
    if w.tick.calls[i]? = w.calls[i]? then none else some (.called i u)
  | _ => none

theorem tick_running {w : World} {t : TaskId} {fs : List Frame} {s : Signal}
    (h : w.current = some (t, fs, s)) : w.tick = w.move t fs s := by
  simp [tick, h]

theorem tick_job {w : World} {j : Job} {rest : List Job} (h : w.current = none)
    (hq : w.queue = j :: rest) : w.tick = { w with queue := rest }.perform j := by
  simp [tick, h, hq]

theorem tick_idle {w : World} (h : w.current = none) (hq : w.queue = []) : w.tick = w := by
  simp [tick, h, hq]

theorem mark?_notifying {w : World} {t : TaskId} {u : Update} {i : Nat} {js : List Nat}
    {fs : List Frame} {s : Signal} (h : w.current = some (t, .notifying u (i :: js) :: fs, s))
    (notEdit : ∀ op, s ≠ .start op) :
    w.mark? = if w.tick.calls[i]? = w.calls[i]? then none else some (.called i u) := by
  cases s with
  | start op => exact absurd rfl (notEdit op)
  | value | fault | cancelled => simp only [mark?, h]

theorem mark?_called {w : World} {i : Nat} {u : Update} (h : w.mark? = some (.called i u)) :
    ∃ t js fs s, w.current = some (t, .notifying u (i :: js) :: fs, s) ∧
      w.tick.calls[i]? ≠ w.calls[i]? := by
  unfold mark? at h
  split at h
  case h_5 =>
    rename_i t u' i' js fs s _ running
    split at h
    · cases h
    · rename_i told
      obtain ⟨rfl, rfl⟩ : i' = i ∧ u' = u := by simpa using h
      exact ⟨t, js, fs, s, running, told⟩
  all_goals simp at h

theorem mark?_edited {w : World} {e : Edit} (h : w.mark? = some (.edited e)) :
    ∃ t fs doc text, w.current = some (t, fs, .start (.edit doc text)) ∧ e = w.editBegun doc text := by
  unfold mark? at h
  split at h
  · rename_i t fs doc text running
    exact ⟨t, fs, doc, text, running, by simpa using h.symm⟩
  all_goals simp at h

theorem mark?_started {w : World} {time : Nat} {t : TaskId} {r : Request} {text : String}
    (h : w.mark? = some (.started time t r text)) :
    time = w.clock ∧ ∃ fs, w.current = some (t, .holding r :: fs, .start (.compile text)) := by
  unfold mark? at h
  split at h
  case h_2 =>
    rename_i t' r' fs text' running
    obtain ⟨rfl, rfl, rfl, rfl⟩ : w.clock = time ∧ t' = t ∧ r' = r ∧ text' = text := by simpa using h
    exact ⟨rfl, fs, running⟩
  case h_5 =>
    split at h
    · cases h
    · simp at h
  all_goals simp at h

def marks (w : World) : Input → List Mark
  | .tick => w.mark?.toList
  | _ => []

theorem marks_silent {i : Input} (h : i ≠ .tick) (w : World) : w.marks i = [] := by
  cases i with
  | tick => exact absurd rfl h
  | _ => rfl

/-- The marks of a run, oldest first. -/
def marksAlong (w : World) : List Input → List Mark
  | [] => []
  | i :: rest => w.marks i ++ (w.apply i).marksAlong rest

theorem marksAlong_append (w : World) (xs ys : List Input) :
    w.marksAlong (xs ++ ys) = w.marksAlong xs ++ (w.run xs).marksAlong ys := by
  induction xs generalizing w with
  | nil => rfl
  | cons i rest ih =>
    rw [List.cons_append, marksAlong, ih, marksAlong, List.append_assoc]
    rfl

/-- What holds at the start and is kept by every step holds after every run, with the marks that
the run has left. -/
theorem run_induct {I : List Mark → World → Prop} {Allowed : Input → Prop}
    (kept : ∀ ms w i, I ms w → Allowed i → I (ms ++ w.marks i) (w.apply i))
    {ms : List Mark} {w : World} (h : I ms w) (inputs : List Input)
    (allowed : ∀ i ∈ inputs, Allowed i) : I (ms ++ w.marksAlong inputs) (w.run inputs) := by
  induction inputs generalizing ms w with
  | nil => simpa [marksAlong, run] using h
  | cons i rest ih =>
    have next := kept ms w i h (allowed i (by simp))
    have := ih next fun j hj => allowed j (List.mem_cons_of_mem i hj)
    simpa [marksAlong, run, List.append_assoc] using this

/-! ### A small editor -/

/-- No quiet time, no compiler, and one subscriber that does nothing. -/
def sample : World :=
  start ⟨0, .whole 0, false, fun _ => ⟨none, none, 0, 0, [], .missing, false, none⟩⟩ ⟨.ok none, []⟩ (.new "")
    [.script fun _ => []]

theorem isNew_sample : sample.IsNew := isNew_start _ _ _ (by simp [Subscriber.IsPublic])

/-- An edit, and steps after it. -/
def editing (text : String) (steps : Nat) : List Input :=
  .begin (.edit (.name "a") text) :: List.replicate steps .tick

theorem isPublic_editing (text : String) (steps : Nat) : ∀ i ∈ editing text steps, i.IsPublic := by
  intro i hi
  rcases List.mem_cons.1 hi with rfl | later
  · exact .edit _ _
  · rw [List.eq_of_mem_replicate later]
    trivial

end World
end InkPreview.Live
