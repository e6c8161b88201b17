import InkPreview.Proofs.Library
import InkPreview.Proofs.Live.Asking
import InkPreview.Proofs.Web
/-!
What clients have stored. As long as documents are edited by messages and requests alone, a step that begins an
edit has just stored its text, or found it in the library, and changes the content of no other document; all
other steps leave every content alone. Main statement: `Served.apply`.
-/
namespace InkPreview.Live

/-- What may be asked for where documents are edited by messages and requests alone. -/
def Op.IsServed : Op → Prop
  | .edit .. | .reportedEdit .. | .together _ => False
  | _ => True

def Action.IsServed : Action → Prop
  | .edit _ => False
  | .ask op => op.IsServed
  | _ => True

def Subscriber.IsServed : Subscriber → Prop
  | .script acts => ∀ n, ∀ a ∈ acts n, a.IsServed
  | .clients => True

def Input.IsServed : Input → Prop
  | .begin op | .queue op => op.IsServed
  | .subscribe y => y.IsServed
  | _ => True

def Frame.IsServed : Frame → Prop
  | .acting _ _ todo => ∀ a ∈ todo, a.IsServed
  | _ => True

def Signal.IsServed : Signal → Prop
  | .start op => op.IsServed
  | _ => True

def Landing.IsServed : Landing → Prop
  | .go _ s => s.IsServed
  | _ => True

theorem Input.IsServed.queues {i : Input} {op : Op} (h : i.IsServed) (asked : i.Queues op) : op.IsServed := by
  cases i with
  | queue =>
    cases asked
    exact h
  | welcome =>
    cases asked
    trivial
  | _ => exact asked.elim

theorem Subscriber.isServed_iff (y : Subscriber) : y.IsServed ↔ y.Does Action.IsServed := by
  cases y <;> rfl

theorem Frame.isServed_iff (f : Frame) : f.IsServed ↔ f.Does Action.IsServed := by
  cases f <;> rfl

theorem Frame.Opens.served {f : Frame} {pushed : List Frame} {op : Op} (h : f.Opens pushed op) : op.IsServed := by
  cases h <;> trivial

theorem allows_served : Allows Action.IsServed Op.IsServed where
  edit _ _ := False.elim
  close _ _ := trivial
  ask _ := id
  compile _ := trivial
  opens _ _ _ := Frame.Opens.served

theorem Op.Opens.served {op op' : Op} {pushed : List Frame} (h : op.Opens pushed op') (served : op.IsServed)
    (noFiles : ¬ op.Files) : op'.IsServed := by
  cases h with
  | reportedEdit => exact served.elim
  | edited | viewed | requestEdit => exact absurd trivial noFiles
  | closeAll | stop | exportAs | closed | replied | converse | requestExport | compile => trivial

theorem Landing.Allowed.served {l : Landing} (h : l.Allowed Op.IsServed) : l.IsServed := by
  cases l with
  | go fs s =>
    cases s with
    | start op => exact h fs op rfl
    | value | fault | cancelled => trivial
  | park | turn | timed | finish => trivial

namespace World
variable {now w v : World} {t : TaskId} {ks : List Slot} {fs : List Frame} {s : Signal} {l : Landing}

/-- What a step of the running task leaves on the stack, and what it begins unless it handles a message or a
request. -/
theorem Next.served (h : Next w t fs s l ks) (given : ∀ y ∈ w.subscribers, y.IsPublic)
    (asked : ∀ i u todo, .acting i u todo ∈ fs → ∀ op, .ask op ∈ todo → op.IsPublic)
    (subscribers : ∀ y ∈ w.subscribers, y.IsServed) (frames : ∀ f ∈ fs, f.IsServed)
    (begins : ∀ op, s = .start op → op.IsServed ∨ ∃ doc text, op = .edit doc text) :
    (∀ f ∈ l.frames, f.IsServed) ∧ ((∀ op, s = .start op → ¬ op.Files) → l.IsServed) := by
  obtain ⟨left, starts⟩ := h.allowed allows_served given asked (fun y hy => y.isServed_iff.1 (subscribers y hy))
    fun f hf => f.isServed_iff.1 (frames f hf)
  refine ⟨fun f hf => f.isServed_iff.2 (left f hf), fun noFiles => (starts ?_).served⟩
  intro op pushed op' same opens
  rcases begins op same with served | ⟨doc, text, rfl⟩
  · exact opens.served served (noFiles op same)
  · cases opens

/-! ### What is stored -/

/-- What an input makes of the contents of documents, and what the task that runs is about to do then. -/
inductive Filed (w : World) (i : Input) (v : World) : Prop
  | kept (still : i = .tick → w.current = none) (current : v.current = w.current)
      (contents : ∀ id, v.library.content? id = w.library.content? id)
  | goes (begins : i = .tick ∨ w.current = none) (served : ∀ t fs s, v.current = some (t, fs, s) → s.IsServed)
      (contents : ∀ id, v.library.content? id = w.library.content? id)
  /-- The text that is about to be edited is stored, and nothing else is. -/
  | edits {t : TaskId} {fs gs : List Frame} {op : Op} {doc : DocId} {text : String} (tick : i = .tick)
      (running : w.current = some (t, fs, .start op)) (files : op.Files)
      (now : v.current = some (t, gs, .start (.edit doc text)))
      (contents : ∀ id, v.library.content? id = if doc.same id then some text else w.library.content? id)

theorem library_land (w : World) (t : TaskId) (l : Landing) : (w.land t l).library = w.library :=
  land_same Nudges.library (fun _ _ _ _ _ => rfl) w t l

theorem Aside.library (h : Aside t w v) (noFiles : ∀ u fs op, w.current = some (u, fs, .start op) → ¬ op.Files) :
    v.library = w.library := by
  cases h with
  | alike h => exact h.library
  | files h files => exact absurd files (noFiles _ _ _ h)
  | stop | forestall => exact (cancel_nudges _ _).library
  | @enroll members _ =>
    obtain ⟨ks, js, eq, -⟩ := enroll_eq w t members
    rw [eq]
  | call | process | launch | spawn | follow => rfl

theorem Deeds.library (h : now.Deeds now v) (noFiles : ∀ u fs op, now.current = some (u, fs, .start op) → ¬ op.Files) :
    v.library = now.library := by
  induction h with
  | refl => rfl
  | tail steps step ih =>
    refine Eq.trans ?_ ih
    cases step with
    | aside h => exact h.library (Deeds.current steps ▸ noFiles)
    | slots | gauge | render | discard | call | hire => rfl
    | cancel => exact (cancel_nudges _ _).library

theorem Stirs.contents {i : Input} (h : Stirs i w v) (id : DocId) : v.library.content? id = w.library.content? id := by
  induction h with
  | refl => rfl
  | tail _ step ih =>
    refine Eq.trans ?_ ih
    cases step with
    | alike h => rw [h.library]
    | later | child | enables | dates | taken | counts | spawn => rfl
    | nudge h => rw [(Nudges.one h).library]
    | cancel => rw [(cancel_nudges _ _).library]

/-! ### Messages and requests -/

theorem Filed.answers {gs : List Frame} {s : Signal} (now : v.current = some (t, gs, s)) (served : s.IsServed)
    (same : v.library = w.library) : w.Filed .tick v := by
  refine .goes (.inl rfl) (fun u hs s' now' => ?_) fun id => by rw [same]
  cases now.symm.trans now'
  exact served

section
variable {op : Op} (running : w.current = some (t, fs, .start op)) (files : op.Files)
include running files

theorem beginHandle_filed (c : ClientId) (data : String) : w.Filed .tick (w.beginHandle t fs c data) := by
  unfold beginHandle
  split
  · exact .answers rfl trivial rfl
  · rename_i a asks
    unfold ask
    split
    · rename_i doc text
      split
      · exact .answers rfl trivial rfl
      · rename_i id named
        have given := DocId.isGiven_ofJson named (Web.Ask.ofText_edit asks)
        exact .edits rfl running files rfl fun other => Library.content?_setContent w.library given text other
    · split
      · exact .answers rfl trivial rfl
      · rename_i id named
        split
        · rename_i content stored
          refine .edits rfl running files rfl fun other => ?_
          split
          · rename_i same
            exact (Library.content?_same same).symm.trans stored
          · rfl
        · exact .answers rfl trivial rfl
    · split
      · split
        · unfold closeUnnamed
          split
          · exact .answers rfl trivial rfl
          · exact .answers rfl trivial rfl
        · exact .answers rfl trivial rfl
      · exact .answers rfl trivial rfl
    · exact .answers rfl trivial rfl
    · exact .answers rfl trivial rfl

theorem beginRequest_filed (r : Web.Request) : w.Filed .tick (w.beginRequest t fs r) := by
  unfold beginRequest
  split
  · exact .answers rfl trivial rfl
  · rename_i route found
    unfold takeRoute
    split
    · exact .answers rfl trivial rfl
    · exact .answers rfl trivial rfl
    · split
      · exact .answers rfl trivial rfl
      · split
        · rename_i title content _ _
          exact .edits rfl running files rfl fun other => Library.content?_create w.library (some title) content none other
        · exact .answers rfl trivial rfl
    · rename_i doc
      have given : (DocId.name doc).isGiven = true := by
        simpa [DocId.isGiven] using Web.Route.find_updateText found
      split
      · exact .answers rfl trivial rfl
      · split
        · rename_i content _
          exact .edits rfl running files rfl fun other => Library.content?_setContent w.library given content other
        · exact .answers rfl trivial rfl
    · exact .answers rfl trivial rfl
    · split
      · unfold exportDocument
        split
        · exact .answers rfl trivial rfl
        · exact .answers rfl trivial rfl
      · exact .answers rfl trivial rfl
    · exact .answers rfl trivial rfl
    · exact .answers rfl trivial rfl

end

/-! ### Steps -/

/-- Documents are edited by messages and requests alone. -/
structure Served (w : World) : Prop where
  subscribers : ∀ y ∈ w.subscribers, y.IsServed
  tasks : Stacked Frame.IsServed Signal.IsServed w.tasks
  running : ∀ t fs s, w.current = some (t, fs, s) →
    (∀ f ∈ fs, f.IsServed) ∧ (s.IsServed ∨ ∃ doc text, s = .start (.edit doc text))

theorem signal_served_iff (s : Signal) : s.IsServed ↔ s.Allowed Op.IsServed := by
  cases s <;> rfl

/-- What a task may be about to begin where documents are edited by messages and requests alone. -/
def MayBegin (op : Op) : Prop := op.IsServed ∨ ∃ doc text, op = .edit doc text

theorem mayBegin_iff (s : Signal) : (s.IsServed ∨ ∃ doc text, s = .start (.edit doc text)) ↔ s.Allowed MayBegin := by
  cases s with
  | start op => simp [Signal.IsServed, Signal.Allowed, MayBegin]
  | value | fault | cancelled => simp [Signal.IsServed, Signal.Allowed]

theorem closed_served : Closed Action.IsServed Op.IsServed MayBegin where
  allows :=
    { edit := fun _ _ => False.elim
      close := fun _ _ => .inl trivial
      ask := fun _ => .inl
      compile := fun _ => .inl trivial
      opens := fun _ _ _ opens => .inl opens.served }
  more _ := .inl
  opens op pushed op' may opens := by
    by_cases files : op.Files
    · cases opens with
      | edited | viewed | requestEdit => exact .inr ⟨_, _, rfl⟩
      | closed | replied | requestExport => exact .inl trivial
      | closeAll | stop | exportAs | converse | reportedEdit | compile => exact files.elim
    · rcases may with served | ⟨doc, text, rfl⟩
      · exact .inl (opens.served served files)
      · cases opens
  together ops may op mem := by
    rcases may with served | ⟨doc, text, edits⟩
    · exact served.elim
    · cases edits
  follow _ := trivial
  background _ := trivial

theorem served_iff (w : World) : w.Served ↔ w.Licensed Action.IsServed Op.IsServed MayBegin := by
  constructor
  · rintro ⟨subscribers, tasks, running⟩
    refine ⟨fun y hy => y.isServed_iff.1 (subscribers y hy), fun k hk => ?_, fun t fs s now => ?_⟩
    · exact ⟨fun f hf => f.isServed_iff.1 ((tasks k hk).1 f hf), (signal_served_iff _).1 (tasks k hk).2⟩
    · obtain ⟨frames, signal⟩ := running t fs s now
      exact ⟨fun f hf => f.isServed_iff.1 (frames f hf), (mayBegin_iff s).1 signal⟩
  · rintro ⟨subscribers, tasks, running⟩
    refine ⟨fun y hy => y.isServed_iff.2 (subscribers y hy), fun k hk => ?_, fun t fs s now => ?_⟩
    · exact ⟨fun f hf => f.isServed_iff.2 ((tasks k hk).1 f hf), (signal_served_iff _).2 (tasks k hk).2⟩
    · obtain ⟨frames, signal⟩ := running t fs s now
      exact ⟨fun f hf => f.isServed_iff.2 (frames f hf), (mayBegin_iff s).2 signal⟩

theorem IsNew.served (new : w.IsNew) (subscribers : ∀ y ∈ w.subscribers, y.IsServed) : w.Served :=
  w.served_iff.2 (new.licensed fun y hy => y.isServed_iff.1 (subscribers y hy))

namespace Served

theorem move (h : w.Served) (sane : w.Sane) (running : w.current = some (t, fs, s)) : w.Filed .tick
    (w.move t fs s) := by
  obtain ⟨frames, begins⟩ := h.running t fs s running
  by_cases files : ∃ op, s = .start op ∧ op.Files
  · obtain ⟨op, rfl, files⟩ := files
    cases op with
    | handle c data => exact beginHandle_filed running files c data
    | request r => exact beginRequest_filed running files r
    | _ => exact files.elim
  · have noFiles : ∀ op, s = .start op → ¬ op.Files := fun op start isFile => files ⟨op, start, isFile⟩
    obtain ⟨x, l, deeds, next, eq⟩ := sane.reaches running
    have same : (w.move t fs s).library = w.library := by
      rw [eq, library_land]
      refine deeds.library fun u gs op now => noFiles op ?_
      cases running.symm.trans now
      rfl
    have served : l.IsServed := by
      refine (next.served sane.subscribers (asked_public (sane.running t fs s running).1) h.subscribers frames ?_).2 noFiles
      rintro op rfl
      exact (mayBegin_iff _).1 begins
    refine .goes (.inl rfl) (fun u gs s' now => ?_) fun id => by rw [same]
    rw [eq, land_current] at now
    cases l with
    | go =>
      cases now
      exact served
    | park | turn | timed | finish => cases now

theorem resume (h : w.Served) (idle : w.current = none) (t : TaskId) : w.Filed .tick (w.resume t) := by
  rcases w.resume_cases t with same | ⟨k, found, -, eq⟩
  · rw [same]
    exact .kept (fun _ => idle) rfl fun _ => rfl
  · rw [eq]
    refine .answers rfl ?_ rfl
    split
    · trivial
    · exact (h.tasks k (List.mem_of_getElem? found)).2

theorem files (h : w.Served) (sane : w.Sane) {i : Input} (served : i.IsServed) : w.Filed i (w.apply i) := by
  have happens := w.apply_happens i
  generalize w.apply i = v at *
  cases happens with
  | moves running => exact h.move sane running
  | @resumes t rest idle =>
    cases Served.resume (w := { w with queue := rest }) ⟨h.subscribers, h.tasks, h.running⟩ idle t with
    | kept still current contents => exact .kept still current contents
    | goes begins signal contents => exact .goes begins signal contents
    | edits _ running => exact absurd running (by simp [idle])
  | forgets idle => exact .kept (fun _ => idle) rfl fun _ => rfl
  | launches idle =>
    refine .goes (.inr idle) (fun t fs s now => ?_) fun _ => rfl
    cases now
    exact served
  | subscribes => exact .kept nofun rfl fun _ => rfl
  | stirs stirred still => exact .kept still stirred.rest.2.2.2.1 stirred.contents

/-- Whatever is served, documents go on to be edited by messages and requests alone. -/
theorem apply (h : w.Served) (sane : w.Sane) {i : Input} (served : i.IsServed) :
    (w.apply i).Served ∧ w.Filed i (w.apply i) := by
  refine ⟨(served_iff _).2 ((w.served_iff.1 h).apply closed_served sane ⟨?_, ?_, ?_⟩), h.files sane served⟩
  · rintro op rfl
    exact served
  · exact fun op asked => served.queues asked
  · rintro y rfl
    exact y.isServed_iff.1 served

end Served

end World
end InkPreview.Live
