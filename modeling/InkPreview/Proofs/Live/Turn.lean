import InkPreview.Proofs.Live.Outside
import Mathlib.Logic.Relation
/-!
What one step of the running task can do. It does some things aside, which leave every other task
at work as it was, and then lands: it goes on with other frames, waits, or has ended. `Turn` lists
the landings, frame by frame. Edits, closings and the steps of a request are not among them; they
change slots and have modules of their own.
-/
namespace InkPreview

/-- Measurements that differ at most in what is counted. -/
structure Metrics.Counts (m n : Metrics) : Prop where
  gauges : n.gauges = m.gauges
  enabled : n.enabled = m.enabled

namespace Metrics.Counts

theorem refl (m : Metrics) : m.Counts m := ⟨rfl, rfl⟩

theorem trans {m n k : Metrics} (h : m.Counts n) (h' : n.Counts k) : m.Counts k :=
  ⟨h'.gauges.trans h.gauges, h'.enabled.trans h.enabled⟩

theorem inc (m : Metrics) (name : String) (labels : Labels) (value : Decimal.Number) :
    m.Counts (m.inc name labels value) := by
  unfold Metrics.inc
  split
  · exact ⟨rfl, rfl⟩
  · exact refl m

end Metrics.Counts
end InkPreview

namespace InkPreview.Live

/-- How a step leaves the running task. -/
inductive Landing
  | go (fs : List Frame) (s : Signal)
  | park (fs : List Frame) (wait : Wait)
  /-- The task queues up for its next turn at once. -/
  | turn (fs : List Frame)
  /-- An alarm is set before the wait. -/
  | timed (fs : List Frame) (wait : Wait) (micros : Nat)
  | finish (r : Result)

/-- What may be asked for, or the following of a process. The work behind an edit is none of it. -/
def Op.IsGiven (op : Op) : Prop := op.IsPublic ∨ ∃ p, op = .follow p

/-- An operation has come to something; none begins. -/
def Signal.IsEnd : Signal → Prop
  | .start _ => False
  | _ => True

/-- What a wait ends on: a value, or the cancellation of the task. -/
def Signal.IsCalm : Signal → Prop
  | .value _ | .cancelled => True
  | _ => False

theorem Signal.IsCalm.ends {s : Signal} (h : s.IsCalm) : s.IsEnd := by
  cases s with
  | start | fault => exact h.elim
  | value | cancelled => trivial

@[simp] theorem Signal.isEnd_value (v : Value) : (Signal.value v).IsEnd := trivial
@[simp] theorem Signal.isEnd_fault (f : Fault) : (Signal.fault f).IsEnd := trivial
@[simp] theorem Signal.isEnd_cancelled : Signal.cancelled.IsEnd := trivial
@[simp] theorem Signal.not_isEnd_start (op : Op) : ¬ (Signal.start op).IsEnd := id

/-- A message or a request, which may have documents stored. -/
def Op.Files : Op → Prop
  | .handle .. | .request _ => True
  | _ => False

/-- The process that a frame stands for, until its operation has come to something. -/
def Frame.child? : Frame → Option ProcessId
  | .running p | .limited p _ | .stoppingFollower p _ | .reaping p _ => some p
  | _ => none

namespace World

def land (w : World) (t : TaskId) : Landing → World
  | .go fs s => w.go t fs s
  | .park fs wait => w.park t fs wait
  | .turn fs => (w.park t fs .turn).enqueue (.resume t)
  | .timed fs wait micros => (w.setAlarm t micros).park t fs wait
  | .finish r => w.finish t r

/-- The conversation with the client is over. -/
def IsParted (w : World) (c : ClientId) : Prop := w.connections[c]?.map (·.link) = some .over

/-- Nobody more is sent to, unless the running task is about to begin a conversation; connections are never removed,
and conversations that are over stay over; and what has happened has happened. -/
structure Admits (w v : World) : Prop where
  clients : (∀ t fs c, w.current ≠ some (t, fs, .start (.converse c))) → v.clients.Sublist w.clients
  links : ∀ (c : ClientId) k, w.connections[c]? = some k →
    ∃ k', v.connections[c]? = some k' ∧ (k.link = .over → k'.link = .over)
  history : w.history <:+ v.history

namespace Admits

theorem refl (w : World) : w.Admits w :=
  ⟨fun _ => List.Sublist.refl _, fun _ k found => ⟨k, found, id⟩, List.suffix_refl _⟩

theorem trans {u v w : World} (h : u.Admits v) (same : v.current = u.current) (h' : v.Admits w) : u.Admits w where
  clients alone := (h'.clients (same ▸ alone)).trans (h.clients alone)
  links c k found := by
    obtain ⟨k', found', parted⟩ := h.links c k found
    obtain ⟨k'', found'', parted'⟩ := h'.links c k' found'
    exact ⟨k'', found'', parted' ∘ parted⟩
  history := h.history.trans h'.history

end Admits

/-- Two states that differ at most in what is seen and counted, not in what is at work, shown or stored,
nor in how many documents are said to be open. -/
structure Alike (w v : World) : Prop where
  setup : v.setup = w.setup
  subscribers : v.subscribers = w.subscribers
  calls : v.calls = w.calls
  slots : v.slots = w.slots
  tasks : v.tasks = w.tasks
  groups : v.groups = w.groups
  processes : v.processes = w.processes
  gallery : v.gallery = w.gallery
  clock : v.clock = w.clock
  alarms : v.alarms = w.alarms
  queue : v.queue = w.queue
  current : v.current = w.current
  library : v.library = w.library
  metrics : w.metrics.Counts v.metrics
  admits : w.Admits v

namespace Alike

theorem refl (w : World) : w.Alike w :=
  ⟨rfl, rfl, rfl, rfl, rfl, rfl, rfl, rfl, rfl, rfl, rfl, rfl, rfl, .refl _, .refl w⟩

theorem trans {u v w : World} (h : u.Alike v) (h' : v.Alike w) : u.Alike w :=
  ⟨h'.1.trans h.1, h'.2.trans h.2, h'.3.trans h.3, h'.4.trans h.4, h'.5.trans h.5, h'.6.trans h.6,
    h'.7.trans h.7, h'.8.trans h.8, h'.9.trans h.9, h'.10.trans h.10, h'.11.trans h.11,
    h'.12.trans h.12, h'.13.trans h.13, h.14.trans h'.14, h.15.trans h.12 h'.15⟩

variable (w : World)

theorem emit (e : Event) : w.Alike (w.emit e) :=
  ⟨rfl, rfl, rfl, rfl, rfl, rfl, rfl, rfl, rfl, rfl, rfl, rfl, rfl, .refl _,
    fun _ => List.Sublist.refl _, (Admits.refl w).links, List.suffix_cons e _⟩
theorem note (n : Note) : w.Alike (w.note n) := emit w _

theorem noteAll (ns : List Note) : w.Alike (w.noteAll ns) := by
  induction ns generalizing w with
  | nil => exact refl w
  | cons n ns ih => exact (note w n).trans (ih (w.note n))

theorem counts {m : Metrics} (h : w.metrics.Counts m) : w.Alike { w with metrics := m } :=
  ⟨rfl, rfl, rfl, rfl, rfl, rfl, rfl, rfl, rfl, rfl, rfl, rfl, rfl, h, fun _ => List.Sublist.refl _,
    (Admits.refl w).links, List.suffix_refl _⟩
theorem count (n : String) : w.Alike (w.count n) := counts w (.inc _ _ _ _)
theorem countBy (n l x : String) : w.Alike (w.countBy n l x) := counts w (.inc _ _ _ _)

theorem finder (f : Finder) : w.Alike { w with finder := f } :=
  ⟨rfl, rfl, rfl, rfl, rfl, rfl, rfl, rfl, rfl, rfl, rfl, rfl, rfl, .refl _,
    fun _ => List.Sublist.refl _, (Admits.refl w).links,
    List.suffix_refl _⟩

theorem clients {cs : List ClientId}
    (fewer : (∀ t fs c, w.current ≠ some (t, fs, .start (.converse c))) → cs.Sublist w.clients) :
    w.Alike { w with clients := cs } :=
  ⟨rfl, rfl, rfl, rfl, rfl, rfl, rfl, rfl, rfl, rfl, rfl, rfl, rfl, .refl _, fewer, (Admits.refl w).links,
    List.suffix_refl _⟩
theorem dropClient (c : ClientId) : w.Alike (w.dropClient c) := clients w fun _ => List.erase_sublist

theorem connections {ks : List Connection} (links : ∀ (c : ClientId) k, w.connections[c]? = some k →
    ∃ k', ks[c]? = some k' ∧ (k.link = .over → k'.link = .over)) : w.Alike { w with connections := ks } :=
  ⟨rfl, rfl, rfl, rfl, rfl, rfl, rfl, rfl, rfl, rfl, rfl, rfl, rfl, .refl _, fun _ => List.Sublist.refl _, links,
    List.suffix_refl _⟩

theorem modifyConnection (c : ClientId) (f : Connection → Connection)
    (parted : ∀ k, w.connections[c]? = some k → k.link = .over → (f k).link = .over) :
    w.Alike (w.modifyConnection c f) := by
  refine connections w fun d k found => ⟨if c = d then f k else k, ?_, fun link => ?_⟩
  · rw [List.getElem?_modify, found]
    rfl
  · split
    · rename_i same
      exact parted k (same ▸ found) link
    · exact link

theorem setInbox (c : ClientId) (inbox : List Incoming) : w.Alike (w.modifyConnection c fun k => { k with inbox }) :=
  modifyConnection w c _ fun _ _ => id

theorem setLink (c : ClientId) {l : Link} (parted : l = .over ∨ ¬ w.IsParted c) : w.Alike (w.setLink c l) := by
  refine modifyConnection w c _ fun k found link => parted.resolve_right fun still => still ?_
  rw [IsParted, found]
  exact congrArg some link

theorem noteRun (n : Option RunNote) : w.Alike (w.noteRun n) := by
  rcases n with _ | _ | _ | _
  · exact refl w
  · exact note w _
  · exact note w _
  · exact note w _

theorem noteRendering (how : Rendering) (a : Artifact) : w.Alike (w.noteRendering how a) := by
  have counted : w.metrics.Counts (how.count a.mode.kind w.metrics) := by
    cases how with
    | kept | placeholder => exact .refl _
    | reused | built => exact .inc _ _ _ _
  unfold World.noteRendering
  split
  · exact (counts w counted).trans (note _ _)
  · exact counts w counted

end Alike

/-- The tasks become a group, which learns of the end of each and which the task `t` is to wait for. -/
def enroll (w : World) (t : TaskId) (members : List TaskId) : World :=
  members.foldl (fun v m => v.watchOrQueue m (.joined w.groups.length))
    { w with groups := w.groups ++ [⟨members, members.length, t, false⟩] }

/-- Watching tasks queues jobs and adds to what is done when the tasks end. -/
theorem watchAll_eq (w : World) (j : Job) (members : List TaskId) : ∃ (ks : List Task) (js : List Job),
    members.foldl (fun v m => v.watchOrQueue m j) w = { w with tasks := ks, queue := w.queue ++ js } ∧
      ks.length = w.tasks.length ∧ ∀ (u : TaskId) k', ks[u]? = some k' →
        ∃ k n, w.tasks[u]? = some k ∧ k' = { k with watchers := k.watchers ++ List.replicate n j } := by
  induction members generalizing w with
  | nil => exact ⟨w.tasks, [], by simp, rfl, fun u k found => ⟨k, 0, found, by simp⟩⟩
  | cons m rest ih =>
    rw [List.foldl_cons]
    obtain ⟨ks, js, eq, length, task⟩ := ih (w.watchOrQueue m j)
    rw [eq]
    unfold watchOrQueue at length task ⊢
    split
    · rename_i ended
      rw [if_pos ended] at length task
      exact ⟨ks, j :: js, by simp [enqueue], length, task⟩
    · rename_i ended
      rw [if_neg ended] at length task
      refine ⟨ks, js, rfl, by simpa [watch, modifyTask] using length, fun u k' found => ?_⟩
      obtain ⟨k, n, found', rfl⟩ := task u k' found
      simp only [watch, modifyTask, List.getElem?_modify, Option.map_eq_map, Option.map_eq_some_iff] at found'
      obtain ⟨k, found', rfl⟩ := found'
      split
      · exact ⟨k, n + 1, found', by simp [List.replicate_succ]⟩
      · exact ⟨k, n, found', rfl⟩

theorem enroll_eq (w : World) (t : TaskId) (members : List TaskId) :
    ∃ (ks : List Task) (js : List Job), w.enroll t members = { w with
      groups := w.groups ++ [⟨members, members.length, t, false⟩], tasks := ks, queue := w.queue ++ js } ∧
      ks.length = w.tasks.length ∧ ∀ (u : TaskId) k', ks[u]? = some k' →
        ∃ k n, w.tasks[u]? = some k ∧
          k' = { k with watchers := k.watchers ++ List.replicate n (.joined w.groups.length) } :=
  watchAll_eq { w with groups := w.groups ++ [⟨members, members.length, t, false⟩] } _ members

/-- The task follows a process for the running task `t`, which has waited for it under a limit. -/
def Follows (w : World) (t f : TaskId) : Prop := ∃ p fs s, w.current = some (t, .limited p f :: fs, s)

/-- The task `f` has been cancelled, and at its end the task `t` alone is told. -/
def stopped (w : World) (t f : TaskId) : World :=
  (w.modifyTask f fun k => { k with watchers := [.report t f] }).cancel f

/-- The tasks of a slot. -/
def tasksOf (w : World) (s : SlotId) : List TaskId := (w.slots[s]?.map (·.tasks)).getD []

theorem mem_tasksOf {w : World} {s : SlotId} {u : TaskId} :
    u ∈ w.tasksOf s ↔ ∃ k, w.slots[s]? = some k ∧ u ∈ k.tasks := by
  cases found : w.slots[s]? with
  | none => simp [tasksOf, found]
  | some k => simp [tasksOf, found]

/-- The running task `t` is about to wait for the tasks: it closes a document, waits for one to be idle whose slot lists
them, or has started operations side by side, which no slot lists. -/
inductive Convokes (w : World) (t : TaskId) (members : List TaskId) : Prop
  | closes {fs : List Frame} {doc : DocId} (h : w.current = some (t, fs, .start (.close doc))) : Convokes w t members
  | idles {fs : List Frame} {s : Signal} {x : SlotId} (h : w.current = some (t, fs, s))
      (idles : (∃ doc, s = .start (.waitIdle doc) ∧ w.slotOf? doc = some x) ∨ s.IsEnd ∧ ∃ rest, fs = .idling x :: rest)
      (listed : ∀ u ∈ members, u ∈ w.tasksOf x) : Convokes w t members
  | starts (unlisted : ∀ u ∈ members, ∀ x, u ∉ w.tasksOf x) : Convokes w t members

/-- The running task `t` is where it sees the process exit, or where it kills it. -/
inductive Tends (w : World) (t : TaskId) (p : ProcessId) : ProcessState → Prop
  | follows {fs : List Frame} (h : w.current = some (t, fs, .start (.follow p))) : Tends w t p .exited
  | followed {fs : List Frame} {s : Signal} (h : w.current = some (t, .following p :: fs, s)) : Tends w t p .exited
  | kills {f : Frame} {fs : List Frame} {s : Signal} (h : w.current = some (t, f :: fs, s)) (ends : s.IsEnd)
      (child : f.child? = some p) : Tends w t p .killed

/-- What the running task `t` may do aside. -/
inductive Aside (t : TaskId) : World → World → Prop
  | alike {w v : World} (h : w.Alike v) : Aside t w v
  | files (w : World) {fs : List Frame} {op : Op} (h : w.current = some (t, fs, .start op)) (files : op.Files)
      (library : Library) (metrics : Metrics) : Aside t w { w with library, metrics }
  | call (w : World) {i : Nat} {u : Update} {js : List Nat} {fs : List Frame} {s : Signal}
      (h : w.current = some (t, .notifying u (i :: js) :: fs, s)) (ends : s.IsEnd)
      (fresh : w.isCurrent u.slot u.generation = true) (n : Nat) :
      Aside t w { w with calls := w.calls.modify i fun _ => n }
  | process (w : World) {p : ProcessId} {s : ProcessState} (tends : w.Tends t p s) : Aside t w (w.setProcess p s)
  | launch (w : World) (k : Process) {fs : List Frame} (own : k.owner = t)
      (h : w.current = some (t, fs, .start (.compile k.source))) (alive : k.state = .alive) :
      Aside t w { w with processes := w.processes ++ [k] }
  | enroll (w : World) {members : List TaskId} (there : ∀ u ∈ members, u < w.tasks.length)
      (convokes : w.Convokes t members) : Aside t w (w.enroll t members)
  | spawn (w : World) {fs : List Frame} {ops : List Op} (h : w.current = some (t, fs, .start (.together ops)))
      {op : Op} (mem : op ∈ ops) (given : op.IsPublic) : Aside t w (w.spawn op fun _ => []).2
  | follow (w : World) (p : ProcessId) : Aside t w (w.spawn (.follow p) fun f => [.report t f]).2
  | stop (w : World) (f : TaskId) (h : w.Follows t f) : Aside t w (w.stopped t f)
  /-- A task that would follow a process is stopped before it gets to run. -/
  | forestall (w : World) (p : ProcessId) :
      Aside t w ((w.spawn (.follow p) fun f => [.report t f]).2.stopped t w.tasks.length)

/-- From `w` the running task lands in `v`, after things done aside. -/
def Leads (w : World) (t : TaskId) (P : Landing → Prop) (v : World) : Prop :=
  ∃ u l, Relation.ReflTransGen (Aside t) w u ∧ P l ∧ v = u.land t l

namespace Leads
variable {w u v : World} {t : TaskId} {P Q : Landing → Prop}

theorem land {l : Landing} (h : P l) : w.Leads t P (w.land t l) := ⟨w, l, .refl, h, rfl⟩

theorem aside (h : Aside t w u) (next : u.Leads t P v) : w.Leads t P v := by
  obtain ⟨x, l, hx, hl, rfl⟩ := next
  exact ⟨x, l, .head h hx, hl, rfl⟩

theorem alike (h : w.Alike u) (next : u.Leads t P v) : w.Leads t P v := aside (.alike h) next

theorem imp (h : w.Leads t P v) (hpq : ∀ l, P l → Q l) : w.Leads t Q v := by
  obtain ⟨x, l, hx, hl, rfl⟩ := h
  exact ⟨x, l, hx, hpq l hl, rfl⟩

theorem go {fs : List Frame} {s : Signal} (h : P (.go fs s)) : w.Leads t P (w.go t fs s) := land h

theorem call {fs : List Frame} {op : Op} (h : P (.go fs (.start op))) :
    w.Leads t P (w.call t fs op) := land h

theorem ret {fs : List Frame} {x : Value} (h : P (.go fs (.value x))) :
    w.Leads t P (w.ret t fs x) := land h

theorem fail {fs : List Frame} {f : Fault} (h : P (.go fs (.fault f))) :
    w.Leads t P (w.fail t fs f) := land h

theorem unwind {fs : List Frame} (h : P (.go fs .cancelled)) : w.Leads t P (w.unwind t fs) := land h

theorem park {fs : List Frame} {wait : Wait} (h : P (.park fs wait)) :
    w.Leads t P (w.park t fs wait) := land h

theorem timed {fs : List Frame} {wait : Wait} {n : Nat} (h : P (.timed fs wait n)) :
    w.Leads t P ((w.setAlarm t n).park t fs wait) := land h

theorem sleep {fs : List Frame} {micros : Int} (now : P (.turn fs))
    (later : ∀ n, P (.timed fs .alarm n)) : w.Leads t P (w.sleep t fs micros) := by
  unfold World.sleep
  split
  · exact land (l := .turn fs) now
  · exact timed (later _)

theorem gather {fs : List Frame} {members : List TaskId} (there : ∀ u ∈ members, u < w.tasks.length)
    (convokes : w.Convokes t members) (nobody : members = [] → P (.go fs (.value .unit)))
    (group : ∀ g, P (.park fs (.group g))) :
    w.Leads t P (w.gather t fs members) := by
  unfold World.gather
  split
  · rename_i empty
    exact ret (nobody (List.isEmpty_iff.1 empty))
  · exact aside (.enroll w there convokes) (park (group _))

end Leads
end World

/-! ### Landings by operation and by frame -/

/-- One operation goes on with another, under the frames it pushes. -/
inductive Op.Opens : Op → List Frame → Op → Prop
  | closeAll {rest : List DocId} {doc : DocId} : Opens .closeAll [.closingAll rest] (.close doc)
  | stop : Opens .stop [.stopping] .closeAll
  | exportAs {doc text : String} {kind : ExportKind} {title : Option String} :
      Opens (.exportAs doc text kind title) [.exporting doc kind title] (.compile text)
  | edited {c : ClientId} {data : String} {doc : DocId} {text : String} :
      Opens (.handle c data) [.acknowledging c doc] (.edit doc text)
  | viewed {c : ClientId} {data : String} {doc : DocId} {text : String} :
      Opens (.handle c data) [] (.edit doc text)
  | closed {c : ClientId} {data : String} {doc : Json} {id : DocId} :
      Opens (.handle c data) [.confirming c doc] (.close id)
  | replied {c : ClientId} {data : String} {m : Web.Message} :
      Opens (.handle c data) [] (.send c m)
  | converse {c : ClientId} {data : String} : Opens (.converse c) [.serving c] (.handle c data)
  | requestEdit {r : Web.Request} {name title text : String} {doc : DocId} :
      Opens (.request r) [.answeringEdit name title, .answering] (.edit doc text)
  | requestExport {r : Web.Request} {doc text : String} {kind : ExportKind} {title : Option String} :
      Opens (.request r) [.answeringExport, .answering] (.exportAs doc text kind title)
  | reportedEdit {doc : DocId} {text : String} :
      Opens (.reportedEdit doc text) [.reporting] (.edit doc text)
  | compile {text : String} {p : ProcessId} : Opens (.compile text) [.running p] (.follow p)

/-- An operation waits for something other than an alarm. -/
inductive Op.Waits : Op → List Frame → Wait → Prop
  | waitIdle {doc : DocId} {s : SlotId} {g : GroupId} : Waits (.waitIdle doc) [.idling s] (.group g)
  | converse {c : ClientId} : Waits (.converse c) [.receiving c] (.message c)
  | together {ops : List Op} {ts : List TaskId} {g : GroupId} :
      Waits (.together ops) [.collecting ts] (.group g)
  | compile {text : String} {p : ProcessId} {f : TaskId} :
      Waits (.compile text) [.stoppingFollower p .timedOut] (.follower f)

/-- An operation lets time pass. -/
inductive Op.Sleeps : Op → List Frame → Prop
  | sleep {micros : Int} : Sleeps (.sleep micros) []
  | send {c : ClientId} {m : Web.Message} : Sleeps (.send c m) [.sending c m]
  | follow {p : ProcessId} : Sleeps (.follow p) [.following p]

/-- An operation is over at once. -/
inductive Op.Answers : Op → List Frame → Signal → Prop
  | waitIdle {doc : DocId} : Answers (.waitIdle doc) [] (.value .unit)
  | closeAll : Answers .closeAll [] (.value .unit)
  | exportAs {doc text : String} {kind : ExportKind} {title : Option String} {e : Exported} :
      Answers (.exportAs doc text kind title) [] (.value (.exported e))
  | handle {c : ClientId} {data : String} {f : Fault} : Answers (.handle c data) [] (.fault f)
  | converse {c : ClientId} : Answers (.converse c) [] (.value .unit)
  | sent {c : ClientId} {m : Web.Message} : Answers (.send c m) [] (.value .unit)
  | notSent {c : ClientId} {m : Web.Message} {f : Fault} : Answers (.send c m) [] (.fault f)
  | request {r : Web.Request} {a : Web.Response} :
      Answers (.request r) [.answering] (.value (.response a))
  | refused {r : Web.Request} {a : Web.Response} : Answers (.request r) [] (.value (.response a))
  | together {ops : List Op} : Answers (.together ops) [.collecting []] (.value .unit)
  | compiled {text : String} {o : Outcome} : Answers (.compile text) [] (.value (.outcome o))
  | crashed {text : String} {f : Fault} : Answers (.compile text) [] (.fault f)
  | follow {p : ProcessId} : Answers (.follow p) [] (.value .unit)

/-- The landings of an operation that begins; `new` is the next task there will be. -/
inductive Op.Lands (op : Op) (new : TaskId) (fs : List Frame) : Landing → Prop
  | opens {pushed : List Frame} {op' : Op} (h : op.Opens pushed op') :
      Lands op new fs (.go (pushed ++ fs) (.start op'))
  | waits {pushed : List Frame} {wait : Wait} (h : op.Waits pushed wait) :
      Lands op new fs (.park (pushed ++ fs) wait)
  | turn {pushed : List Frame} (h : op.Sleeps pushed) : Lands op new fs (.turn (pushed ++ fs))
  | timed {pushed : List Frame} (h : op.Sleeps pushed) {n : Nat} :
      Lands op new fs (.timed (pushed ++ fs) .alarm n)
  | limited {text : String} (h : op = .compile text) {p : ProcessId} {n : Nat} :
      Lands op new fs (.timed (.limited p new :: fs) (.follower new) n)
  | answers {pushed : List Frame} {s : Signal} (h : op.Answers pushed s) :
      Lands op new fs (.go (pushed ++ fs) s)

/-- A frame, once the operation above it has ended, begins the next one. -/
inductive Frame.Opens : Frame → List Frame → Op → Prop
  | broadcasting {m : Web.Message} {c : Option ClientId} {cs cs' : List ClientId} {c' : ClientId} :
      Opens (.broadcasting m c cs) [.broadcasting m (some c') cs'] (.send c' m)
  | closingAll {ds ds' : List DocId} {doc : DocId} :
      Opens (.closingAll ds) [.closingAll ds'] (.close doc)
  | acknowledging {c : ClientId} {doc : DocId} {m : Web.Message} :
      Opens (.acknowledging c doc) [] (.send c m)
  | confirming {c : ClientId} {doc : Json} {m : Web.Message} : Opens (.confirming c doc) [] (.send c m)
  | serving {c : ClientId} {data : String} : Opens (.serving c) [.serving c] (.handle c data)
  | receiving {c : ClientId} {data : String} : Opens (.receiving c) [.serving c] (.handle c data)

inductive Frame.Waits : Frame → List Frame → Wait → Prop
  | idling {s : SlotId} {g : GroupId} : Waits (.idling s) [.idling s] (.group g)
  | serving {c : ClientId} : Waits (.serving c) [.receiving c] (.message c)
  | receiving {c : ClientId} : Waits (.receiving c) [.receiving c] (.message c)

/-- The request that a frame carries while it waits for quiet, for the lock or for the compiler. -/
def Frame.request? : Frame → Option Request
  | .quiet r | .queueing r | .holding r => some r
  | _ => none

/-- Frames whose operation ends with whatever the one above it has ended with, or with what they
make of it. -/
def Frame.IsPlain : Frame → Prop
  | .notifying .. | .acting .. | .quiet _ | .queueing _ | .holding _ | .running _ | .limited .. |
    .stoppingFollower .. | .reaping .. => False
  | _ => True

namespace World

/-- What a subscriber does next, of what it has still to do. -/
inductive Acted (i : Nat) (u : Update) (todo : List Action) (fs : List Frame) : Landing → Prop
  | through : Acted i u todo fs (.go fs (.value .unit))
  | fails {m : String} : Acted i u todo fs (.go fs (.fault (.subscriber m)))
  | turn {rest : List Action} (h : rest <:+ todo) : Acted i u todo fs (.turn (.acting i u rest :: fs))
  | timed {rest : List Action} (h : rest <:+ todo) {n : Nat} :
      Acted i u todo fs (.timed (.acting i u rest :: fs) .alarm n)
  | edits {rest : List Action} (h : rest <:+ todo) {text : String} (mem : .edit text ∈ todo) :
      Acted i u todo fs (.go (.acting i u rest :: fs) (.start (.edit (.name u.doc) text)))
  | closes {rest : List Action} (h : rest <:+ todo) (mem : .close ∈ todo) :
      Acted i u todo fs (.go (.acting i u rest :: fs) (.start (.close (.name u.doc))))
  | asks {rest : List Action} (h : rest <:+ todo) {op : Op} (mem : .ask op ∈ todo) :
      Acted i u todo fs (.go (.acting i u rest :: fs) (.start op))
  | skips {rest : List Action} (h : rest <:+ todo) :
      Acted i u todo fs (.go (.acting i u rest :: fs) (.value .unit))

/-- What comes of telling the subscribers `js` of an update, above the frames `fs`. -/
inductive Told (w : World) (u : Update) (fs : List Frame) : List Nat → Landing → Prop
  | through : Told w u fs [] (.go fs (.value .unit))
  | stale {js : List Nat} (h : w.isCurrent u.slot u.generation = false) :
      Told w u fs js (.go fs (.value .unit))
  | script {i : Nat} {js : List Nat} {acts : Nat → List Action} {n : Nat} {l : Landing}
      (h : w.isCurrent u.slot u.generation = true)
      (mem : w.subscribers[i]? = some (.script acts))
      (acted : Acted i u (acts n) (.notifying u js :: fs) l) : Told w u fs (i :: js) l
  | clients {i : Nat} {js : List Nat} {m : Web.Message} {cs : List ClientId}
      (h : w.isCurrent u.slot u.generation = true)
      (mem : w.subscribers[i]? = some .clients) :
      Told w u fs (i :: js) (.go (.broadcasting m none cs :: .notifying u js :: fs) (.value .unit))
  | nobody {i : Nat} {js : List Nat} (h : w.isCurrent u.slot u.generation = true)
      (mem : w.subscribers[i]? = none) :
      Told w u fs (i :: js) (.go (.notifying u js :: fs) (.value .unit))

/-- What comes of killing a process. -/
inductive Killed (p : ProcessId) (why : KillReason) (fs : List Frame) : Landing → Prop
  | timedOut {o : Outcome} (h : why = .timedOut) : Killed p why fs (.go fs (.value (.outcome o)))
  | cancelled (h : why = .cancelled) : Killed p why fs (.go fs .cancelled)
  | turn : Killed p why fs (.turn (.reaping p why :: fs))
  | timed {n : Nat} : Killed p why fs (.timed (.reaping p why :: fs) .alarm n)

/-- The landings of the running task, by its frames and by what moves it. -/
inductive Turn (w : World) : List Frame → Signal → Landing → Prop
  | done {r : Result} {s : Signal} (h : s = r.signal) : Turn w [] s (.finish r)
  | begins {op : Op} {fs : List Frame} {l : Landing} (h : op.Lands w.tasks.length fs l) :
      Turn w fs (.start op) l
  | opens {f : Frame} {fs pushed : List Frame} {s : Signal} {op : Op} (hs : s.IsEnd)
      (h : f.Opens pushed op) : Turn w (f :: fs) s (.go (pushed ++ fs) (.start op))
  | waits {f : Frame} {fs pushed : List Frame} {s : Signal} {wait : Wait} (hs : s.IsEnd)
      (h : f.Waits pushed wait) : Turn w (f :: fs) s (.park (pushed ++ fs) wait)
  | pops {f : Frame} {fs : List Frame} {s s' : Signal} (hf : f.IsPlain) (hs : s.IsEnd)
      (hs' : s'.IsEnd) (calm : s' = .cancelled → s = .cancelled) : Turn w (f :: fs) s (.go fs s')
  | told {u : Update} {js : List Nat} {fs : List Frame} {s : Signal} {l : Landing} (hs : s.IsEnd)
      (hc : s ≠ .cancelled) (h : Told w u fs js l) : Turn w (.notifying u js :: fs) s l
  | untold {u : Update} {js : List Nat} {fs : List Frame} :
      Turn w (.notifying u js :: fs) .cancelled (.go fs .cancelled)
  | acted {i : Nat} {u : Update} {todo : List Action} {fs : List Frame} {v : Value} {l : Landing}
      (h : Acted i u todo fs l) : Turn w (.acting i u todo :: fs) (.value v) l
  | failed {i : Nat} {u : Update} {todo : List Action} {fs : List Frame} {f : Fault} :
      Turn w (.acting i u todo :: fs) (.fault f) (.go fs (.fault f))
  | stopped {i : Nat} {u : Update} {todo : List Action} {fs : List Frame} :
      Turn w (.acting i u todo :: fs) .cancelled (.go fs .cancelled)
  | ran {p : ProcessId} {fs : List Frame} {v : Value} {o : Outcome} :
      Turn w (.running p :: fs) (.value v) (.go fs (.value (.outcome o)))
  | waited {p : ProcessId} {f : TaskId} {fs : List Frame} {s : Signal} {o : Outcome} (hs : s.IsEnd) :
      Turn w (.limited p f :: fs) s (.go fs (.value (.outcome o)))
  | lost {p : ProcessId} {f : TaskId} {fs : List Frame} {s : Signal} {l : Landing} (hs : s.IsEnd)
      (stopped : w.wasCancelled f = true) (h : Killed p .cancelled fs l) : Turn w (.limited p f :: fs) s l
  | late {p : ProcessId} {f : TaskId} {fs : List Frame} {v : Value} :
      Turn w (.limited p f :: fs) (.value v) (.park (.stoppingFollower p .timedOut :: fs) (.follower f))
  | hurried {p : ProcessId} {f : TaskId} {fs : List Frame} :
      Turn w (.limited p f :: fs) .cancelled
        (.park (.stoppingFollower p .cancelled :: fs) (.follower f))
  | heeded {p : ProcessId} {f : TaskId} {fs : List Frame} :
      Turn w (.limited p f :: fs) .cancelled (.go fs .cancelled)
  | killed {p : ProcessId} {why : KillReason} {fs : List Frame} {v : Value} {l : Landing}
      (h : Killed p why fs l) : Turn w (.stoppingFollower p why :: fs) (.value v) l
  | reaped {p : ProcessId} {why : KillReason} {fs : List Frame} {v : Value} {l : Landing}
      (h : Killed p why fs l) : Turn w (.reaping p why :: fs) (.value v) l
  | killedNow {p : ProcessId} {f : Frame} {fs : List Frame} {l : Landing}
      (hf : f = .running p ∨ ∃ why, f = .stoppingFollower p why) (h : Killed p .cancelled fs l) :
      Turn w (f :: fs) .cancelled l
  | unreaped {p : ProcessId} {why : KillReason} {fs : List Frame} :
      Turn w (.reaping p why :: fs) .cancelled (.go fs .cancelled)
  | faulted {f : Frame} {fs : List Frame} {e : Fault}
      (hf : ∃ p, f = .running p ∨ (∃ t, f = .limited p t) ∨
        (∃ why, f = .stoppingFollower p why ∨ f = .reaping p why)) :
      Turn w (f :: fs) (.fault e) (.go fs (.fault e))

end World

/-! ### What a turn leaves on the stack -/

/-- Frames of no update and of no request. -/
def Frame.IsSimple : Frame → Prop
  | .notifying .. | .acting .. | .quiet _ | .queueing _ | .holding _ => False
  | _ => True

def Landing.frames : Landing → List Frame
  | .go fs _ | .park fs _ | .turn fs | .timed fs _ _ => fs
  | .finish _ => []

/-- What a landing begins, if anything, may be asked for. -/
def Landing.IsGiven : Landing → Prop
  | .go _ (.start op) => op.IsGiven
  | _ => True

/-- A property of frames that a turn hands on to the frames it makes. -/
structure Frame.Kept (subscribers : List Subscriber) (F : Frame → Prop) : Prop where
  simple : ∀ f : Frame, f.IsSimple → F f
  told : ∀ u i js, F (.notifying u (i :: js)) → F (.notifying u js)
  called : ∀ u i js acts n todo, F (.notifying u (i :: js)) →
    subscribers[i]? = some (.script acts) → todo <:+ acts n → F (.acting i u todo)
  acted : ∀ i u todo rest, F (.acting i u todo) → rest <:+ todo → F (.acting i u rest)

section
variable {F : Frame → Prop} {fs pushed : List Frame}

/-- Everything in the list has the property. -/
theorem all_cons {f : Frame} (h : F f) (h' : ∀ f ∈ fs, F f) : ∀ g ∈ f :: fs, F g := by
  simpa using ⟨h, h'⟩

theorem all_append (h : ∀ f ∈ pushed, F f) (h' : ∀ f ∈ fs, F f) : ∀ f ∈ pushed ++ fs, F f := by
  simpa [or_imp, forall_and] using ⟨h, h'⟩

theorem Op.Opens.simple {op op' : Op} (h : op.Opens pushed op') :
    (∀ f ∈ pushed, f.IsSimple) ∧ op'.IsGiven := by
  cases h with
  | closeAll => exact ⟨by simp [Frame.IsSimple], .inl (.close _)⟩
  | stop => exact ⟨by simp [Frame.IsSimple], .inl .closeAll⟩
  | exportAs => exact ⟨by simp [Frame.IsSimple], .inl (.compile _)⟩
  | edited => exact ⟨by simp [Frame.IsSimple], .inl (.edit _ _)⟩
  | viewed => exact ⟨by simp, .inl (.edit _ _)⟩
  | closed => exact ⟨by simp [Frame.IsSimple], .inl (.close _)⟩
  | replied => exact ⟨by simp, .inl (.send _ _)⟩
  | converse => exact ⟨by simp [Frame.IsSimple], .inl (.handle _ _)⟩
  | requestEdit => exact ⟨by simp [Frame.IsSimple], .inl (.edit _ _)⟩
  | requestExport => exact ⟨by simp [Frame.IsSimple], .inl (.exportAs _ _ _ _)⟩
  | reportedEdit => exact ⟨by simp [Frame.IsSimple], .inl (.edit _ _)⟩
  | compile => exact ⟨by simp [Frame.IsSimple], .inr ⟨_, rfl⟩⟩

theorem Op.Waits.simple {op : Op} {wait : Wait} (h : op.Waits pushed wait) :
    ∀ f ∈ pushed, f.IsSimple := by
  cases h <;> simp [Frame.IsSimple]

theorem Op.Sleeps.simple {op : Op} (h : op.Sleeps pushed) : ∀ f ∈ pushed, f.IsSimple := by
  cases h <;> simp [Frame.IsSimple]

theorem Op.Answers.simple {op : Op} {s : Signal} (h : op.Answers pushed s) :
    (∀ f ∈ pushed, f.IsSimple) ∧ s.IsEnd := by
  cases h <;> simp [Frame.IsSimple]

theorem Frame.Opens.simple {f : Frame} {op : Op} (h : f.Opens pushed op) :
    (∀ f ∈ pushed, f.IsSimple) ∧ op.IsGiven := by
  cases h with
  | broadcasting => exact ⟨by simp [Frame.IsSimple], .inl (.send _ _)⟩
  | closingAll => exact ⟨by simp [Frame.IsSimple], .inl (.close _)⟩
  | acknowledging => exact ⟨by simp, .inl (.send _ _)⟩
  | confirming => exact ⟨by simp, .inl (.send _ _)⟩
  | serving => exact ⟨by simp [Frame.IsSimple], .inl (.handle _ _)⟩
  | receiving => exact ⟨by simp [Frame.IsSimple], .inl (.handle _ _)⟩

theorem Frame.Waits.simple {f : Frame} {wait : Wait} (h : f.Waits pushed wait) :
    ∀ f ∈ pushed, f.IsSimple := by
  cases h <;> simp [Frame.IsSimple]

theorem Signal.IsEnd.given {s : Signal} (h : s.IsEnd) : (Landing.go fs s).IsGiven := by
  cases s with
  | start => exact h.elim
  | value | fault | cancelled => trivial

theorem Op.Lands.keeps {op : Op} {new : TaskId} {l : Landing} (h : op.Lands new fs l)
    (simple : ∀ f : Frame, f.IsSimple → F f) (all : ∀ f ∈ fs, F f) :
    (∀ f ∈ l.frames, F f) ∧ l.IsGiven := by
  have onto : ∀ {pushed : List Frame}, (∀ f ∈ pushed, f.IsSimple) → ∀ f ∈ pushed ++ fs, F f :=
    fun pushed => all_append (fun f hf => simple f (pushed f hf)) all
  cases h with
  | opens h => exact ⟨onto h.simple.1, h.simple.2⟩
  | waits h => exact ⟨onto h.simple, trivial⟩
  | turn h => exact ⟨onto h.simple, trivial⟩
  | timed h => exact ⟨onto h.simple, trivial⟩
  | limited h => exact ⟨all_cons (simple _ trivial) all, trivial⟩
  | answers h => exact ⟨onto h.simple.1, h.simple.2.given⟩

namespace World

theorem Acted.keeps {i : Nat} {u : Update} {todo : List Action} {l : Landing}
    (h : Acted i u todo fs l) (acting : ∀ rest, rest <:+ todo → F (.acting i u rest))
    (asked : ∀ op, .ask op ∈ todo → op.IsPublic) (all : ∀ f ∈ fs, F f) :
    (∀ f ∈ l.frames, F f) ∧ l.IsGiven := by
  cases h with
  | through => exact ⟨all, trivial⟩
  | fails => exact ⟨all, trivial⟩
  | turn h => exact ⟨all_cons (acting _ h) all, trivial⟩
  | timed h => exact ⟨all_cons (acting _ h) all, trivial⟩
  | edits h mem => exact ⟨all_cons (acting _ h) all, .inl (.edit _ _)⟩
  | closes h mem => exact ⟨all_cons (acting _ h) all, .inl (.close _)⟩
  | asks h mem => exact ⟨all_cons (acting _ h) all, .inl (asked _ mem)⟩
  | skips h => exact ⟨all_cons (acting _ h) all, trivial⟩

theorem Told.keeps {w : World} {u : Update} {js : List Nat} {l : Landing}
    (h : Told w u fs js l) (kept : Frame.Kept w.subscribers F)
    (subscribers : ∀ s ∈ w.subscribers, s.IsPublic) (top : F (.notifying u js))
    (all : ∀ f ∈ fs, F f) : (∀ f ∈ l.frames, F f) ∧ l.IsGiven := by
  cases h with
  | through => exact ⟨all, trivial⟩
  | stale => exact ⟨all, trivial⟩
  | script _ mem acted =>
    refine acted.keeps (fun todo => kept.called _ _ _ _ _ todo top mem) ?_
      (all_cons (kept.told _ _ _ top) all)
    exact fun op asked => subscribers _ (List.mem_of_getElem? mem) _ _ asked
  | clients => exact ⟨all_cons (kept.simple _ trivial) (all_cons (kept.told _ _ _ top) all), trivial⟩
  | nobody => exact ⟨all_cons (kept.told _ _ _ top) all, trivial⟩

theorem Killed.keeps {p : ProcessId} {why : KillReason} {l : Landing} (h : Killed p why fs l)
    (simple : ∀ f : Frame, f.IsSimple → F f) (all : ∀ f ∈ fs, F f) :
    (∀ f ∈ l.frames, F f) ∧ l.IsGiven := by
  cases h with
  | timedOut => exact ⟨all, trivial⟩
  | cancelled => exact ⟨all, trivial⟩
  | turn => exact ⟨all_cons (simple _ trivial) all, trivial⟩
  | timed => exact ⟨all_cons (simple _ trivial) all, trivial⟩

/-- What all frames of a stack have and a turn hands on they all have after it. -/
theorem Turn.keeps {w : World} {s : Signal} {l : Landing} (h : Turn w fs s l)
    (kept : Frame.Kept w.subscribers F) (subscribers : ∀ s ∈ w.subscribers, s.IsPublic)
    (asked : ∀ i u todo, .acting i u todo ∈ fs → ∀ op, .ask op ∈ todo → op.IsPublic)
    (all : ∀ f ∈ fs, F f) : (∀ f ∈ l.frames, F f) ∧ l.IsGiven := by
  have below : ∀ {f : Frame} {fs : List Frame}, (∀ g ∈ f :: fs, F g) → ∀ g ∈ fs, F g :=
    fun all g hg => all g (List.mem_cons_of_mem _ hg)
  have onto : ∀ {pushed fs : List Frame}, (∀ f ∈ pushed, f.IsSimple) → (∀ f ∈ fs, F f) →
      ∀ f ∈ pushed ++ fs, F f :=
    fun pushed => all_append fun f hf => kept.simple f (pushed f hf)
  cases h with
  | done => exact ⟨nofun, trivial⟩
  | begins h => exact h.keeps kept.simple all
  | opens _ h => exact ⟨onto h.simple.1 (below all), h.simple.2⟩
  | waits _ h => exact ⟨onto h.simple (below all), trivial⟩
  | pops _ _ ends => exact ⟨below all, ends.given⟩
  | told _ _ h => exact h.keeps kept subscribers (all _ List.mem_cons_self) (below all)
  | @acted i u todo _ _ _ h =>
    exact h.keeps (fun rest => kept.acted i u todo rest (all _ List.mem_cons_self))
      (asked i u todo List.mem_cons_self) (below all)
  | late | hurried => exact ⟨all_cons (kept.simple _ trivial) (below all), trivial⟩
  | killed h | reaped h => exact h.keeps kept.simple (below all)
  | killedNow _ h | lost _ _ h => exact h.keeps kept.simple (below all)
  | untold | failed | stopped | ran | waited | heeded | unreaped | faulted => exact ⟨below all, trivial⟩

end World
end
end InkPreview.Live
