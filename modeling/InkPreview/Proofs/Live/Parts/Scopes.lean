import InkPreview.Proofs.Live.Followers
import InkPreview.Proofs.Live.Asking
/-!
Scopes. What is done on behalf of some documents asks for nothing else, as long as subscribers mind
the document they are told of. Main statements: `Flight.apply_scoped` and `Minded.apply`.
-/
namespace InkPreview.Live

/-- What a subscriber does that minds the document it is told of and asks for nothing else. How often it has been called
by now is no matter of one document. -/
def Action.IsOwn : Action → Prop
  | .ask _ | .skip _ => False
  | _ => True

def Subscriber.IsOwn : Subscriber → Prop
  | .script acts => ∀ n, ∀ a ∈ acts n, a.IsOwn
  | .clients => False

/-- Operations for some documents, and those for no document. -/
def Op.IsOf (docs : DocId → Prop) : Op → Prop
  | .edit doc _ => docs doc
  | .close doc => docs doc
  | .reportedEdit doc _ => docs doc
  | .waitIdle doc => docs doc
  | .background r => docs (.name r.doc)
  | .compile _ | .exportAs .. | .sleep _ | .follow _ => True
  | _ => False

/-- Frames of such operations. -/
def Frame.IsOf (docs : DocId → Prop) : Frame → Prop
  | .notifying u _ => docs (.name u.doc)
  | .acting _ u todo => docs (.name u.doc) ∧ ∀ a ∈ todo, a.IsOwn
  | .quiet r | .queueing r | .holding r => docs (.name r.doc)
  | .issued _ | .idling _ | .running _ | .limited .. | .stoppingFollower .. | .following _ | .reaping .. | .closing .. | .exporting .. |
    .reporting => True
  | _ => False

/-- Whatever the signal begins is such an operation. -/
def Signal.IsOf (docs : DocId → Prop) : Signal → Prop
  | .start op => op.IsOf docs
  | _ => True

/-- Whatever the task lands on, and whatever it goes on with, are such. -/
def Landing.IsOf (docs : DocId → Prop) (l : Landing) : Prop :=
  (∀ f ∈ l.frames, f.IsOf docs) ∧ ∀ gs s, l = .go gs s → s.IsOf docs

/-- What may be asked of the coordinator for some documents. -/
def Input.IsPlain (docs : DocId → Prop) : Input → Prop
  | .begin op | .queue op => op.IsPublic ∧ op.IsOf docs
  | .subscribe y => y.IsOwn
  | .connect _ | .welcome .. | .arrive .. | .breakLink _ => False
  | _ => True

theorem Subscriber.IsOwn.isPublic {y : Subscriber} (h : y.IsOwn) : y.IsPublic := by
  cases y with
  | script acts =>
    intro n a mem
    have own := h n a mem
    cases a with
    | ask | skip => exact own.elim
    | _ => trivial
  | clients => trivial

theorem Input.IsPlain.isPublic {docs : DocId → Prop} {i : Input} (h : i.IsPlain docs) : i.IsPublic := by
  cases i with
  | begin | queue => exact h.1
  | subscribe => exact Subscriber.IsOwn.isPublic h
  | _ => trivial

section
variable {docs docs' : DocId → Prop} {fs pushed : List Frame} {s : Signal} {l : Landing}

theorem Signal.IsEnd.isOf (h : s.IsEnd) : s.IsOf docs := by
  cases s with
  | start => exact h.elim
  | value | fault | cancelled => trivial

theorem Op.IsOf.mono {op : Op} (h : op.IsOf docs) (more : ∀ d, docs d → docs' d) :
    op.IsOf docs' := by
  cases op with
  | edit doc => exact more doc h
  | close doc => exact more doc h
  | waitIdle doc => exact more doc h
  | reportedEdit doc => exact more doc h
  | background r => exact more _ h
  | compile | exportAs | sleep | follow => trivial
  | closeAll | stop | handle | converse | send | request | together => exact h.elim

theorem Signal.IsOf.mono (h : s.IsOf docs) (more : ∀ d, docs d → docs' d) :
    s.IsOf docs' := by
  cases s with
  | start => exact Op.IsOf.mono h more
  | value | fault | cancelled => trivial

theorem Frame.IsOf.mono {f : Frame} (h : f.IsOf docs) (more : ∀ d, docs d → docs' d) :
    f.IsOf docs' := by
  cases f with
  | notifying => exact more _ h
  | acting => exact ⟨more _ h.1, h.2⟩
  | quiet | queueing | holding => exact more _ h
  | issued | idling | running | limited | stoppingFollower | following | reaping | closing | exporting | reporting => trivial
  | _ => exact h.elim

theorem Landing.isOf_end (ends : s.IsEnd) (all : ∀ f ∈ fs, f.IsOf docs) : (Landing.go fs s).IsOf docs :=
  ⟨all, fun _ _ eq => (Landing.go.inj eq).2 ▸ ends.isOf⟩

theorem Landing.isOf_begins {op : Op} (of : op.IsOf docs) (all : ∀ f ∈ fs, f.IsOf docs) :
    (Landing.go fs (.start op)).IsOf docs :=
  ⟨all, fun _ _ eq => (Landing.go.inj eq).2 ▸ of⟩

theorem Op.Lands.isOf {op : Op} {new : TaskId} (h : op.Lands new fs l) (of : op.IsOf docs)
    (all : ∀ f ∈ fs, f.IsOf docs) : l.IsOf docs := by
  cases h with
  | opens h =>
    cases h with
    | exportAs | reportedEdit | compile => exact Landing.isOf_begins of (all_cons trivial all)
    | closeAll | stop | edited | viewed | closed | replied | converse | requestEdit | requestExport => exact of.elim
  | waits h =>
    cases h with
    | waitIdle | compile => exact ⟨all_cons trivial all, nofun⟩
    | converse | together => exact of.elim
  | turn h =>
    cases h with
    | sleep => exact ⟨all, nofun⟩
    | follow => exact ⟨all_cons trivial all, nofun⟩
    | send => exact of.elim
  | timed h =>
    cases h with
    | sleep => exact ⟨all, nofun⟩
    | follow => exact ⟨all_cons trivial all, nofun⟩
    | send => exact of.elim
  | limited => exact ⟨all_cons trivial all, nofun⟩
  | answers h =>
    cases h with
    | waitIdle | exportAs | compiled | crashed | follow => exact Landing.isOf_end trivial all
    | closeAll | handle | converse | sent | notSent | request | refused | together => exact of.elim

namespace World
variable {w : World} {t : TaskId} {ks : List Slot}

theorem Acted.isOf {i : Nat} {u : Update} {todo : List Action} (h : Acted i u todo fs l) (of : docs (.name u.doc))
    (own : ∀ a ∈ todo, a.IsOwn) (all : ∀ f ∈ fs, f.IsOf docs) : l.IsOf docs := by
  have later : ∀ {rest : List Action}, rest <:+ todo → ∀ f ∈ .acting i u rest :: fs, f.IsOf docs :=
    fun short => all_cons ⟨of, fun a mem => own a (short.subset mem)⟩ all
  cases h with
  | through | fails => exact Landing.isOf_end trivial all
  | turn short | timed short => exact ⟨later short, nofun⟩
  | edits short | closes short => exact Landing.isOf_begins of (later short)
  | skips short => exact Landing.isOf_end trivial (later short)
  | asks _ mem => exact (own _ mem).elim

theorem Told.isOf {u : Update} {js : List Nat} (h : Told w u fs js l) (of : docs (.name u.doc))
    (own : ∀ y ∈ w.subscribers, y.IsOwn) (all : ∀ f ∈ fs, f.IsOf docs) : l.IsOf docs := by
  cases h with
  | through | stale => exact Landing.isOf_end trivial all
  | script _ mem acted => exact acted.isOf of (own _ (List.mem_of_getElem? mem) _) (all_cons of all)
  | clients _ mem => exact (own _ (List.mem_of_getElem? mem)).elim
  | nobody => exact Landing.isOf_end trivial (all_cons of all)

theorem Killed.isOf {p : ProcessId} {why : KillReason} (h : Killed p why fs l) (all : ∀ f ∈ fs, f.IsOf docs) :
    l.IsOf docs := by
  cases h with
  | timedOut | cancelled => exact Landing.isOf_end trivial all
  | turn | timed => exact ⟨all_cons trivial all, nofun⟩

theorem Turn.isOf (h : Turn w fs s l) (own : ∀ y ∈ w.subscribers, y.IsOwn) (begins : s.IsOf docs)
    (all : ∀ f ∈ fs, f.IsOf docs) : l.IsOf docs := by
  have top : ∀ {f : Frame} {fs : List Frame}, (∀ g ∈ f :: fs, g.IsOf docs) → f.IsOf docs :=
    fun all => all _ List.mem_cons_self
  have below : ∀ {f : Frame} {fs : List Frame}, (∀ g ∈ f :: fs, g.IsOf docs) → ∀ g ∈ fs, g.IsOf docs :=
    fun all g hg => all g (List.mem_cons_of_mem _ hg)
  cases h with
  | done => exact ⟨nofun, nofun⟩
  | begins h => exact h.isOf begins all
  | opens _ h =>
    have of := top all
    cases h <;> exact of.elim
  | waits _ h =>
    have of := top all
    cases h with
    | idling => exact ⟨all, nofun⟩
    | serving | receiving => exact of.elim
  | pops _ _ ends => exact Landing.isOf_end ends (below all)
  | told _ _ h => exact h.isOf (top all) own (below all)
  | acted h => exact h.isOf (top all).1 (top all).2 (below all)
  | late | hurried => exact ⟨all_cons trivial (below all), nofun⟩
  | killed h | reaped h | killedNow _ h | lost _ _ h => exact h.isOf (below all)
  | untold | failed | stopped | ran | waited | heeded | unreaped | faulted => exact Landing.isOf_end trivial (below all)

/-- What is done for some documents goes on with what is done for them. -/
theorem Next.isOf (h : Next w t fs s l ks) (own : ∀ y ∈ w.subscribers, y.IsOwn) (begins : s.IsOf docs)
    (all : ∀ f ∈ fs, f.IsOf docs) : l.IsOf docs := by
  have top : ∀ {f : Frame} {fs : List Frame}, (∀ g ∈ f :: fs, g.IsOf docs) → f.IsOf docs :=
    fun all => all _ List.mem_cons_self
  have below : ∀ {f : Frame} {fs : List Frame}, (∀ g ∈ f :: fs, g.IsOf docs) → ∀ g ∈ fs, g.IsOf docs :=
    fun all g hg => all g (List.mem_cons_of_mem _ hg)
  cases h with
  | turn _ h => exact h.isOf own begins all
  | @edits _ name _ u _ _ shown =>
    have named : docs (.name name) := begins
    have of : docs (.name u.doc) := shown.doc ▸ named
    exact Landing.isOf_end trivial (all_cons of (all_cons trivial all))
  | misnamed => exact Landing.isOf_end trivial all
  | closes h =>
    cases h with
    | through ends => exact Landing.isOf_end ends all
    | waits => exact ⟨all_cons trivial all, nofun⟩
  | @rests _ r _ h =>
    have of : docs (.name r.doc) := begins
    rcases h with rfl | ⟨n, rfl⟩
    · exact ⟨all_cons of all, nofun⟩
    · exact ⟨all_cons of all, nofun⟩
  | @quieted _ r _ _ h =>
    have of : docs (.name r.doc) := top all
    rcases h with ⟨-, rfl⟩ | ⟨-, rfl | rfl⟩
    · exact Landing.isOf_end trivial (below all)
    · exact ⟨all_cons of (below all), nofun⟩
    · exact Landing.isOf_begins trivial (all_cons of (below all))
  | @called _ r _ _ h =>
    have of : docs (.name r.doc) := top all
    rcases h with ⟨-, rfl⟩ | ⟨-, rfl⟩
    · exact Landing.isOf_end trivial (below all)
    · exact Landing.isOf_begins trivial (all_cons of (below all))
  | @settles _ r _ _ u _ _ shown =>
    have named : docs (.name r.doc) := top all
    have of : docs (.name u.doc) := shown.doc ▸ named
    exact Landing.isOf_end trivial (all_cons of (below all))
  | abandons | leaves | drops | lets | breaks => exact Landing.isOf_end trivial (below all)

/-! ### Whole states -/

/-- All tasks are at work for some documents. -/
structure Scoped (docs : DocId → Prop) (w : World) : Prop where
  tasks : ∀ (t : TaskId) k, w.tasks[t]? = some k →
    (∀ f ∈ k.frames, f.IsOf docs) ∧ k.signal.IsOf docs
  running : ∀ t fs s, w.current = some (t, fs, s) → (∀ f ∈ fs, f.IsOf docs) ∧ s.IsOf docs

variable {ms : List Mark} {b : Bench}

theorem Scoped.grown {licit : Op → Prop} {xs ys : List Task} (grown : Grown licit xs ys)
    (old : ∀ (t : TaskId) k, xs[t]? = some k → (∀ f ∈ k.frames, f.IsOf docs) ∧ k.signal.IsOf docs)
    (starts : ∀ t op, xs.length ≤ t → licit op → op.IsOf docs) (t : TaskId) (k : Task) (found : ys[t]? = some k) :
    (∀ f ∈ k.frames, f.IsOf docs) ∧ k.signal.IsOf docs := by
  rcases grown.task t k found with ⟨k', before, frames, signal⟩ | ⟨new, frames, signal⟩
  · obtain ⟨all, begins⟩ := old t k' before
    refine ⟨frames ▸ all, ?_⟩
    rcases signal with same | calm
    · exact same ▸ begins
    · exact calm.ends.isOf
  · rw [frames]
    refine ⟨nofun, ?_⟩
    rcases signal with calm | ⟨op, begun, licit⟩
    · exact calm.ends.isOf
    · exact begun ▸ starts t op new licit

/-- Whatever happens, tasks stay at work for some documents, if new ones are. -/
theorem Flight.apply_scoped (h : Flight ms b w) (minds : w.Scoped docs)
    (subscribers : ∀ y ∈ w.subscribers, y.IsOwn) (i : Input)
    (starts : ∀ t op, w.tasks.length ≤ t → i = .tick ∧ w.Begins op ∨ i.Queues op ∨ i = .begin op →
      op.IsOf docs) :
    (w.apply i).Scoped docs := by
  have happens := w.apply_happens i
  generalize w.apply i = v at *
  cases happens with
  | @moves t fs s running =>
    obtain ⟨x, l, deeds, next, eq⟩ := h.sane.reaches running
    obtain ⟨all, begins⟩ := minds.running t fs s running
    obtain ⟨left, goes⟩ := next.isOf subscribers begins all
    have before := Scoped.grown deeds.grown minds.tasks fun t op new begun => starts t op new (.inl ⟨rfl, begun⟩)
    rw [eq]
    refine ⟨Scoped.grown (land_grown (fun _ => False) x t l) (fun u k found => ?_) fun _ _ _ => False.elim,
      fun u fs' s' now => ?_⟩
    · have put : ∀ (u : TaskId) k, (x.tasks.modify t fun k => { k with frames := l.frames })[u]? = some k →
          (∀ f ∈ k.frames, f.IsOf docs) ∧ k.signal.IsOf docs := by
        intro u k found
        simp only [List.getElem?_modify, Option.map_eq_map, Option.map_eq_some_iff] at found
        obtain ⟨k, found, rfl⟩ := found
        obtain ⟨old, signal⟩ := before u k found
        split
        · exact ⟨left, signal⟩
        · exact ⟨old, signal⟩
      cases l with
      | go => exact before u k found
      | park | turn | timed | finish => exact put u k found
    · rw [land_current] at now
      obtain ⟨rfl, rfl⟩ := Landing.now_eq now
      exact ⟨left, goes _ _ rfl⟩
  | @resumes t rest =>
    rcases ({ w with queue := rest } : World).resume_cases t with same | ⟨k, found, -, eq⟩
    · rw [same]
      exact ⟨minds.tasks, minds.running⟩
    · rw [eq]
      refine ⟨fun u k' at_u => ?_, fun u fs s now => ?_⟩
      · obtain ⟨k₁, before, rfl | rfl, -⟩ := resumed_task at_u
        · exact minds.tasks u _ before
        · exact minds.tasks u k₁ before
      · obtain ⟨rfl, rfl, rfl⟩ : t = u ∧ k.frames = fs ∧ _ = s := by simpa [World.go] using now
        obtain ⟨all, begins⟩ := minds.tasks t k found
        refine ⟨all, ?_⟩
        split
        · trivial
        · exact begins
  | forgets | subscribes => exact ⟨minds.tasks, minds.running⟩
  | @launches op =>
    have begun := starts w.tasks.length op (Nat.le_refl _) (.inr (.inr rfl))
    refine ⟨fun u k found => ?_, fun u fs s now => ?_⟩
    · rcases getElem?_concat_iff.1 found with before | ⟨rfl, rfl⟩
      · exact minds.tasks u k before
      · exact ⟨by simp, begun⟩
    · obtain ⟨rfl, rfl, rfl⟩ : w.tasks.length = u ∧ [] = fs ∧ .start op = s := by simpa [World.launch] using now
      exact ⟨by simp, begun⟩
  | stirs stirred =>
    refine ⟨Scoped.grown stirred.grown minds.tasks fun t op new begun => starts t op new (.inr (.inl begun)),
      fun t fs s now => ?_⟩
    exact minds.running t fs s (stirred.rest.2.2.2.1.symm.trans now)

/-- What holds of an editor whose callers and subscribers mind some documents. -/
structure Minded (docs : DocId → Prop) (w : World) : Prop where
  flight : ∃ ms b, Flight ms b w
  own : ∀ y ∈ w.subscribers, y.IsOwn
  minds : w.Scoped docs

namespace Minded
variable {i : Input}

/-- A new task is at work for what it has been begun for. -/
theorem starts (h : Minded docs w) (plain : i.IsPlain docs) {op : Op}
    (begun : i = .tick ∧ w.Begins op ∨ i.Queues op ∨ i = .begin op) : op.IsOf docs := by
  rcases begun with ⟨rfl, begins⟩ | queues | rfl
  · cases begins with
    | together running =>
      have none := (h.minds.running _ _ _ running).2
      exact none.elim
    | follow => trivial
    | @background r hires =>
      obtain ⟨t, fs, name, running, -, eq⟩ := hires
      have named : r.doc = name := congrArg Request.doc eq
      show docs (.name r.doc)
      rw [named]
      exact (h.minds.running _ _ _ running).2
  · cases i with
    | queue op' =>
      obtain rfl : op = op' := queues
      exact plain.2
    | welcome => exact plain.elim
    | _ => exact queues.elim
  · exact plain.2

theorem apply (h : Minded docs w) (plain : i.IsPlain docs) : Minded docs (w.apply i) := by
  obtain ⟨ms, b, flight⟩ := h.flight
  refine ⟨⟨_, b, flight.apply plain.isPublic⟩, ?_,
    flight.apply_scoped h.minds h.own i fun t op _ begun => h.starts plain begun⟩
  intro y mem
  have happens := w.apply_happens i
  generalize w.apply i = v at *
  cases happens with
  | @moves t fs x running =>
    obtain ⟨z, l, deeds, -, eq⟩ := flight.sane.reaches running
    rw [eq, subscribers_land, deeds.subscribers] at mem
    exact h.own y mem
  | @resumes t rest =>
    obtain ⟨ks, cur, eq⟩ := resume_eq { w with queue := rest } t
    rw [eq] at mem
    exact h.own y mem
  | forgets | launches => exact h.own y mem
  | subscribes =>
    rcases List.mem_append.1 mem with old | new
    · exact h.own y old
    · exact List.mem_singleton.1 new ▸ plain
  | stirs stirred => exact h.own y (stirred.rest.2.1 ▸ mem)

theorem run (h : Minded docs w) {inputs : List Input} (plain : ∀ i ∈ inputs, i.IsPlain docs) : Minded docs
    (w.run inputs) := by
  induction inputs generalizing w with
  | nil => exact h
  | cons i rest ih =>
    exact ih (h.apply (plain i List.mem_cons_self)) fun j mem => plain j (List.mem_cons_of_mem i mem)

end Minded

end World
end
end InkPreview.Live
