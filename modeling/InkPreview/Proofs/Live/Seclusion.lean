import InkPreview.Proofs.Live.Exports
import InkPreview.Proofs.Live.Followers
import InkPreview.Proofs.Live.Handling
/-!
Exports by themselves. No step of an export, nor of a task that follows its process, touches a slot, a lock, a page
or a stored document, or tells anybody of an update. Main statements: `Flight.next_aloof` and `run_exporting`.
-/
namespace InkPreview.Live

/-- What subscribers and clients can see. -/
def Event.isShown : Event → Bool
  | .told .. | .sent .. => true
  | _ => false

/-- What a compile comes to that is left its time: what the search for a compiler has found, and how the compiler
behaves on the text, decide. -/
def compileAnswer (found : Except Fault (Option String)) (c : Child) : Except Fault Outcome :=
  match found with
  | .error f => .error f
  | .ok none => .ok (.failed .toolMissing toolMissingMessage)
  | .ok (some _) =>
    match c.writeFault, c.startFault with
    | some (.refused m), _ => .ok (.failed .ioError (writeFailedMessage m))
    | some (.crashed name m), _ => .error (.setup name m)
    | none, some (.refused m) => .ok (.failed .processError m)
    | none, some (.crashed name m) => .error (.setup name m)
    | none, none => .ok c.outcome.1

/-- What an export hands over, or fails with. -/
def exportAnswer (tag text : String) (kind : ExportKind) (title : Option String) (found : Except Fault (Option String))
    (c : Child) : Signal :=
  match kind, compileAnswer found c with
  | .source, _ => .value (.exported ⟨.source, text⟩)
  | .compiled, .ok (.success story) => .value (.exported ⟨.compiled, story⟩)
  | .web, .ok (.success story) => .value (.exported ⟨.web, Page.build tag (.compiled story) title⟩)
  | _, .ok (.failed k m) => .fault (.exportFailed k m)
  | _, .error f => .fault f

/-- The call of an export. -/
def Frame.isExport : Frame → Bool
  | .exporting .. => true
  | _ => false

/-- The frames, but for some that are no export's. -/
def LaidOn (base fs : List Frame) : Prop := ∃ pushed, fs = pushed ++ base ∧ ∀ f ∈ pushed, f.isExport = false

namespace LaidOn
variable {base fs pushed : List Frame} {f : Frame}

theorem refl (fs : List Frame) : LaidOn fs fs := ⟨[], rfl, by simp⟩

theorem cons (h : LaidOn base fs) (other : f.isExport = false) : LaidOn base (f :: fs) := by
  obtain ⟨pushed, rfl, others⟩ := h
  exact ⟨f :: pushed, rfl, all_cons other others⟩

theorem append (others : ∀ f ∈ pushed, f.isExport = false) : LaidOn base (pushed ++ base) := ⟨pushed, rfl, others⟩

/-- An export on the stack is below what has been laid on it. -/
theorem suffix (h : LaidOn base fs) (own : f.isExport = true) {below : List Frame} (on : f :: below <:+ fs) :
    f :: below <:+ base := by
  obtain ⟨pushed, rfl, others⟩ := h
  induction pushed with
  | nil => exact on
  | cons g rest ih =>
    rcases List.suffix_cons_iff.1 on with same | on
    · obtain ⟨rfl, -⟩ := List.cons.inj same
      exact absurd own (by simp [others _ List.mem_cons_self])
    · exact ih (fun g mem => others g (List.mem_cons_of_mem _ mem)) on

end LaidOn

namespace World

def shown (w : World) : List Event := w.history.filter Event.isShown

/-- The same slots with their locks, the same pages and documents, and nothing more to be seen. -/
structure Aloof (w v : World) : Prop where
  slots : v.slots = w.slots
  gallery : v.gallery = w.gallery
  library : v.library = w.library
  shown : v.shown = w.shown

/-- The task is about to begin an export, or in one. -/
def InExport (w : World) (t : TaskId) : Prop :=
  (∃ fs doc text kind title, w.current = some (t, fs, .start (.exportAs doc text kind title))) ∨
    ∃ f ∈ w.stackOf t, f.isExport = true

/-- The task is in an export, or does nothing but follow a process, as one does that an export starts. -/
def WorksForExport (w : World) (t : TaskId) : Prop :=
  w.InExport t ∨ ∃ q, w.post? t = some q ∧ IsFollowing q.frames q.signal

/-- The next step is one of the task's own, gives it its turn, or tells it that another has ended. -/
def IsNext (w : World) (u : TaskId) : Prop := (∃ fs s, w.current = some (u, fs, s)) ∨
  w.current = none ∧ ∃ rest, w.queue = .resume u :: rest ∨ ∃ f, w.queue = .report u f :: rest

section
variable {ms : List Mark} {b : Bench} {start w v x : World} {S : Except Fault Outcome → Prop} {t u f : TaskId}
  {p : ProcessId} {base fs pre : List Frame} {s : Signal} {doc text : String} {kind : ExportKind}
  {title : Option String}
  {inputs mid : List Input} {o : Except Fault Outcome} {found : Except Fault (Option String)} {c : Child}
  {l : Landing} {ks : List Slot} {i : Input}

/-! ### Operations that keep aloof -/

namespace Aloof

theorem refl (w : World) : w.Aloof w := ⟨rfl, rfl, rfl, rfl⟩

theorem trans (h : w.Aloof v) (h' : v.Aloof x) : w.Aloof x :=
  ⟨h'.slots.trans h.slots, h'.gallery.trans h.gallery, h'.library.trans h.library, h'.shown.trans h.shown⟩

theorem noteAll (w : World) (ns : List Note) : w.Aloof (w.noteAll ns) := by
  induction ns generalizing w with
  | nil => exact refl w
  | cons n rest ih =>
    have noted : w.Aloof (w.note n) := ⟨rfl, rfl, rfl, rfl⟩
    exact noted.trans (ih (w.note n))

theorem nudges {H : TaskId → Prop} (h : Nudges H w v) (slots : v.slots = w.slots) : w.Aloof v :=
  ⟨slots, h.gallery, h.library, h.same (f := World.shown) fun _ _ _ _ _ _ => rfl⟩

theorem cancel (alone : ∀ k, w.tasks[t]? = some k → (∀ s, k.wait ≠ .lock s) ∧ ∀ g, k.wait ≠ .group g) :
    w.Aloof (w.cancel t) := nudges (cancel_nudges w t) (slots_cancel alone)

theorem park (w : World) (t : TaskId) (fs : List Frame) (wait : Wait) (alone : ∀ s, wait ≠ .lock s)
    (single : ∀ g, wait ≠ .group g) : w.Aloof (w.park t fs wait) where
  slots := slots_park w t fs alone single
  gallery := park_same Nudges.gallery (fun _ _ _ _ _ => rfl) w t fs wait
  library := park_same Nudges.library (fun _ _ _ _ _ => rfl) w t fs wait
  shown := park_same (f := World.shown) (fun h => h.same fun _ _ _ _ _ _ => rfl) (fun _ _ _ _ _ => rfl) w t fs wait

theorem sleep (w : World) (t : TaskId) (fs : List Frame) (micros : Int) : w.Aloof (w.sleep t fs micros) := by
  unfold World.sleep
  split
  · exact (park w t fs .turn nofun nofun).trans ⟨rfl, rfl, rfl, rfl⟩
  · have set : w.Aloof (w.setAlarm t micros.toNat) := ⟨rfl, rfl, rfl, rfl⟩
    exact set.trans (park _ t fs .alarm nofun nofun)

theorem conclude (w : World) (t : TaskId) (fs : List Frame) (o : Outcome) : w.Aloof (w.conclude t fs o) := by
  cases o with
  | success | failed => exact ⟨rfl, rfl, rfl, rfl⟩

theorem readOutcome (w : World) (t : TaskId) (fs : List Frame) (p : ProcessId) : w.Aloof (w.readOutcome t fs p) := by
  unfold World.readOutcome
  split
  · rename_i k found
    have noted : w.Aloof (w.noteRun k.child.outcome.2) := by
      rcases k.child.outcome.2 with _ | _ | _ | _
      · exact refl w
      · exact ⟨rfl, rfl, rfl, rfl⟩
      · exact ⟨rfl, rfl, rfl, rfl⟩
      · exact ⟨rfl, rfl, rfl, rfl⟩
    exact noted.trans (conclude _ t fs _)
  · exact conclude w t fs _

theorem reaped (w : World) (t : TaskId) (fs : List Frame) (why : KillReason) : w.Aloof (w.reaped t fs why) := by
  cases why with
  | timedOut =>
    have noted : w.Aloof (w.note (.timedOut w.setup.limit)) := ⟨rfl, rfl, rfl, rfl⟩
    exact noted.trans (conclude _ t fs (.failed .processError (timedOutMessage w.setup.limit)))
  | cancelled => exact ⟨rfl, rfl, rfl, rfl⟩

theorem kill (w : World) (t : TaskId) (fs : List Frame) (p : ProcessId) (why : KillReason) :
    w.Aloof (w.kill t fs p why) := by
  unfold World.kill
  split
  · have killed : w.Aloof ((w.setProcess p .killed).emit (.killed w.clock p)) := ⟨rfl, rfl, rfl, rfl⟩
    dsimp only
    split
    · exact killed.trans (reaped _ t fs why)
    · split
      · have dead : w.Aloof (((w.setProcess p .killed).emit (.killed w.clock p)).emit (.reaped w.clock p)) := ⟨rfl, rfl, rfl, rfl⟩
        exact dead.trans (reaped _ t fs why)
      · exact killed.trans (sleep _ t _ _)
  · exact reaped w t fs why

theorem processExited (w : World) (t : TaskId) (fs : List Frame) (p : ProcessId) :
    w.Aloof (w.processExited t fs p) := by
  unfold World.processExited
  split
  · exact ⟨rfl, rfl, rfl, rfl⟩
  · exact ⟨rfl, rfl, rfl, rfl⟩

theorem beginFollow (w : World) (t : TaskId) (fs : List Frame) (p : ProcessId) : w.Aloof (w.beginFollow t fs p) := by
  unfold World.beginFollow
  split
  · split
    · exact processExited w t fs p
    · exact sleep w t _ _
  · exact ⟨rfl, rfl, rfl, rfl⟩

theorem stopFollower (t : TaskId) (fs : List Frame) (p : ProcessId) (why : KillReason)
    (alone : ∀ k, w.tasks[f]? = some k → (∀ s, k.wait ≠ .lock s) ∧ ∀ g, k.wait ≠ .group g) :
    w.Aloof (w.stopFollower t fs p f why) := by
  let x := w.modifyTask f fun k => { k with watchers := [.report t f] }
  have cancelled : x.Aloof (x.cancel f) := by
    refine cancel fun k found => ?_
    simp only [x, modifyTask, List.getElem?_modify_eq, Option.map_eq_map, Option.map_eq_some_iff] at found
    obtain ⟨k', found, rfl⟩ := found
    exact alone k' found
  have freed : w.Aloof x := ⟨rfl, rfl, rfl, rfl⟩
  exact (freed.trans cancelled).trans (park _ t _ (.follower f) (by simp) (by simp))

theorem limitedWaitOver (t : TaskId) (fs : List Frame) (p : ProcessId) (why : KillReason)
    (alone : ∀ k, w.tasks[f]? = some k → (∀ s, k.wait ≠ .lock s) ∧ ∀ g, k.wait ≠ .group g) :
    w.Aloof (w.limitedWaitOver t fs p f why) := by
  unfold World.limitedWaitOver
  split
  · split
    · exact kill w t fs p _
    · split
      · exact reaped w t fs _
      · exact readOutcome w t fs p
  · exact stopFollower t fs p why alone

theorem awaitProcess (w : World) (t : TaskId) (fs : List Frame) (p : ProcessId) : w.Aloof (w.awaitProcess t fs p) := by
  unfold World.awaitProcess
  dsimp only
  split
  · exact ⟨rfl, rfl, rfl, rfl⟩
  · have begun : w.Aloof (w.spawn (.follow p) fun f => [.report t f]).2 := ⟨rfl, rfl, rfl, rfl⟩
    split
    · refine begun.trans (stopFollower t fs p .timedOut fun k found => ?_)
      obtain rfl := Option.some.inj (List.getElem?_concat_length.symm.trans found)
      exact ⟨nofun, nofun⟩
    · have set : w.Aloof ((w.spawn (.follow p) fun f => [.report t f]).2.setAlarm t w.setup.limit.millionths.toNat) :=
        ⟨rfl, rfl, rfl, rfl⟩
      exact set.trans (park _ t _ (.follower w.tasks.length) nofun nofun)

theorem invoke (w : World) (t : TaskId) (fs : List Frame) (executable : Option String) (source : String) :
    w.Aloof (w.invoke t fs executable source) := by
  have counted : w.Aloof (w.count "compile.started") := ⟨rfl, rfl, rfl, rfl⟩
  unfold World.invoke
  split
  · exact ⟨rfl, rfl, rfl, rfl⟩
  · generalize w.count "compile.started" = x at counted
    dsimp only
    split
    · exact counted.trans ⟨rfl, rfl, rfl, rfl⟩
    · exact counted.trans ⟨rfl, rfl, rfl, rfl⟩
    · split
      · rename_i exe _ _ _ m _
        have refused : x.Aloof (x.note (.startRefused exe m)) := ⟨rfl, rfl, rfl, rfl⟩
        exact (counted.trans refused).trans (conclude _ t fs _)
      · exact counted.trans ⟨rfl, rfl, rfl, rfl⟩
      · have started (k : Process) (e : Event) (hidden : e.isShown = false) :
            x.Aloof (World.emit { x with processes := x.processes ++ [k] } e) :=
          ⟨rfl, rfl, rfl, by simp [World.shown, World.emit, hidden]⟩
        exact (counted.trans (started _ _ rfl)).trans (awaitProcess _ t fs _)

theorem beginCompile (w : World) (t : TaskId) (fs : List Frame) (source : String) :
    w.Aloof (w.beginCompile t fs source) := by
  unfold World.beginCompile
  dsimp only
  split
  · exact (noteAll w _).trans ⟨rfl, rfl, rfl, rfl⟩
  · exact (noteAll w _).trans (invoke _ t fs _ source)

theorem finish (w : World) (t : TaskId) (r : Result) : w.Aloof (w.finish t r) := by
  obtain ⟨f, -, eq⟩ := finish_eq w t r
  rw [eq]
  exact ⟨rfl, rfl, rfl, rfl⟩

theorem resume (w : World) (t : TaskId) : w.Aloof (w.resume t) := by
  obtain ⟨ks, cur, eq⟩ := w.resume_eq t
  rw [eq]
  exact ⟨rfl, rfl, rfl, rfl⟩

theorem learn (w : World) (t f : TaskId) : w.Aloof (w.learn t f) := by
  unfold World.learn
  dsimp only
  split
  · exact ⟨rfl, rfl, rfl, rfl⟩
  · exact refl w

theorem exportCompiled (w : World) (t : TaskId) (fs : List Frame) (doc : String) (kind : ExportKind)
    (title : Option String) (v : Value) : w.Aloof (w.exportCompiled t fs doc kind title v) := by
  rcases v with _ | _ | ⟨_ | _⟩ | _ | _ | _ <;> exact ⟨rfl, rfl, rfl, rfl⟩

end Aloof

/-! ### The steps of an export -/

/-- Every step of a compile that is under way keeps aloof. -/
theorem Flight.doing_aloof (h : Flight ms b w) (meeting : w.Meeting) (tailed : w.Tailed) (doing : w.Doing S pre s)
    (running : w.current = some (t, pre ++ base, s)) (above : pre ≠ []) : w.Aloof (w.move t (pre ++ base) s) := by
  cases doing with
  | came | cancelled => exact absurd rfl above
  | followed => exact .beginFollow w t _ _
  | running calm =>
    cases s with
    | start | fault => exact calm.elim
    | value => exact .readOutcome w t base _
    | cancelled => exact .kill w t base _ .cancelled
  | following calm =>
    cases s with
    | start | fault => exact calm.elim
    | value => exact .processExited w t _ _
    | cancelled => exact ⟨rfl, rfl, rfl, rfl⟩
  | @limited p f _ calm =>
    have alone : ∀ k, w.tasks[f]? = some k → (∀ s, k.wait ≠ .lock s) ∧ ∀ g, k.wait ≠ .group g := fun k found =>
      h.follower_alone meeting (tailed.limiting t _ s p f running List.mem_cons_self) found
    cases s with
    | start | fault => exact calm.elim
    | value => exact .limitedWaitOver t base p .timedOut alone
    | cancelled => exact .limitedWaitOver t base p .cancelled alone
  | stopping calm =>
    cases s with
    | start | fault => exact calm.elim
    | value => exact .kill w t base _ _
    | cancelled => exact .kill w t base _ .cancelled
  | @reaping p why _ calm =>
    cases s with
    | start | fault => exact calm.elim
    | value =>
      have gone : w.Aloof (w.emit (.reaped w.clock p)) := ⟨rfl, rfl, rfl, rfl⟩
      exact gone.trans (.reaped _ t base why)
    | cancelled => exact ⟨rfl, rfl, rfl, rfl⟩

/-- Every step of a task that does nothing but follow a process keeps aloof. -/
theorem following_aloof (h : IsFollowing fs s) : w.Aloof (w.move t fs s) := by
  cases s with
  | start op =>
    obtain ⟨p, rfl⟩ := h.begins op rfl
    exact .beginFollow w t fs p
  | value v =>
    cases fs with
    | nil => exact .finish w t _
    | cons f gs =>
      obtain ⟨p, rfl⟩ := h.frames f List.mem_cons_self
      exact .processExited w t gs p
  | fault =>
    cases fs with
    | nil => exact .finish w t _
    | cons f gs =>
      obtain ⟨p, rfl⟩ := h.frames f List.mem_cons_self
      exact ⟨rfl, rfl, rfl, rfl⟩
  | cancelled =>
    cases fs with
    | nil => exact .finish w t _
    | cons f gs =>
      obtain ⟨p, rfl⟩ := h.frames f List.mem_cons_self
      exact ⟨rfl, rfl, rfl, rfl⟩

/-! ### Where exports are -/

theorem Acted.laid {j : Nat} {u : Update} {todo : List Action} (h : Acted j u todo fs l) : LaidOn fs l.frames := by
  cases h with
  | through | fails => exact .refl fs
  | turn | timed | edits | closes | asks | skips => exact (LaidOn.refl fs).cons rfl

theorem Told.laid {u : Update} {js : List Nat} (h : Told w u fs js l) : LaidOn fs l.frames := by
  cases h with
  | through | stale => exact .refl fs
  | @script i js _ _ _ _ _ acted =>
    obtain ⟨pushed, eq, others⟩ := acted.laid
    exact ⟨pushed ++ [.notifying u js], by simp [eq], all_append others (by simp [Frame.isExport])⟩
  | clients => exact ((LaidOn.refl fs).cons rfl).cons rfl
  | nobody => exact (LaidOn.refl fs).cons rfl

theorem Killed.laid {why : KillReason} (h : Killed p why fs l) : LaidOn fs l.frames := by
  cases h with
  | timedOut | cancelled => exact .refl fs
  | turn | timed => exact (LaidOn.refl fs).cons rfl

theorem lands_laid {op : Op} {new : TaskId} (h : op.Lands new fs l) : LaidOn fs l.frames ∨
    ∃ doc text kind title, op = .exportAs doc text kind title ∧
      l = .go (.exporting doc kind title :: fs) (.start (.compile text)) := by
  cases h with
  | opens h =>
    cases h with
    | exportAs => exact .inr ⟨_, _, _, _, rfl, rfl⟩
    | closeAll | stop | edited | viewed | closed | replied | converse | requestEdit | requestExport | reportedEdit
      | compile => exact .inl (.append (by simp [Frame.isExport]))
  | waits h =>
    cases h with
    | waitIdle | converse | together | compile => exact .inl (.append (by simp [Frame.isExport]))
  | turn h | timed h =>
    cases h with
    | sleep | send | follow => exact .inl (.append (by simp [Frame.isExport]))
  | limited => exact .inl ((LaidOn.refl fs).cons rfl)
  | answers h =>
    cases h with
    | waitIdle | closeAll | exportAs | handle | converse | sent | notSent | request | refused | together | compiled
      | crashed | follow => exact .inl (.append (by simp [Frame.isExport]))

/-- A step lays no export on the stack, unless it begins one. -/
theorem Next.laid (h : Next w t fs s l ks) : (∃ base, base <:+ fs ∧ LaidOn base l.frames) ∨
    ∃ doc text kind title, s = .start (.exportAs doc text kind title) ∧
      l = .go (.exporting doc kind title :: fs) (.start (.compile text)) := by
  have on {l : Landing} (h : LaidOn fs l.frames) : ∃ base, base <:+ fs ∧ LaidOn base l.frames :=
    ⟨fs, List.suffix_refl _, h⟩
  have below {f : Frame} {gs : List Frame} {l : Landing} (h : LaidOn gs l.frames) :
      ∃ base, base <:+ f :: gs ∧ LaidOn base l.frames := ⟨gs, List.suffix_cons _ _, h⟩
  cases h with
  | turn _ h =>
    cases h with
    | begins h =>
      rcases lands_laid h with laid | ⟨doc, text, kind, title, rfl, eq⟩
      · exact .inl (on laid)
      · exact .inr ⟨doc, text, kind, title, rfl, eq⟩
    | done => exact .inl (on (.refl []))
    | opens _ h =>
      cases h with
      | broadcasting | closingAll | acknowledging | confirming | serving | receiving =>
        exact .inl (below (.append (by simp [Frame.isExport])))
    | waits _ h =>
      cases h with
      | idling | serving | receiving => exact .inl (below (.append (by simp [Frame.isExport])))
    | told _ _ h => exact .inl (below h.laid)
    | acted h => exact .inl (below h.laid)
    | lost _ _ h | killed h | reaped h | killedNow _ h => exact .inl (below h.laid)
    | late | hurried => exact .inl (below ((LaidOn.refl _).cons rfl))
    | pops | untold | failed | stopped | ran | waited | heeded | unreaped | faulted => exact .inl (below (.refl _))
  | closes h =>
    cases h with
    | through => exact .inl (on (.refl _))
    | waits => exact .inl (on ((LaidOn.refl _).cons rfl))
  | rests h =>
    rcases h with rfl | ⟨n, rfl⟩
    · exact .inl (on ((LaidOn.refl _).cons rfl))
    · exact .inl (on ((LaidOn.refl _).cons rfl))
  | quieted h =>
    rcases h with ⟨-, rfl⟩ | ⟨-, rfl | rfl⟩
    · exact .inl (below (.refl _))
    · exact .inl (below ((LaidOn.refl _).cons rfl))
    · exact .inl (below ((LaidOn.refl _).cons rfl))
  | called h =>
    rcases h with ⟨-, rfl⟩ | ⟨-, rfl⟩
    · exact .inl (below (.refl _))
    · exact .inl (below ((LaidOn.refl _).cons rfl))
  | edits => exact .inl (on (((LaidOn.refl _).cons rfl).cons rfl))
  | misnamed => exact .inl (on (.refl _))
  | settles => exact .inl (below ((LaidOn.refl _).cons rfl))
  | abandons | leaves | drops | lets | breaks => exact .inl (below (.refl _))

/-- A task that is in an export is about to compile for it, under way, or back. -/
def Exporting (w : World) : Prop := ∀ t doc kind title base, .exporting doc kind title :: base <:+ w.stackOf t →
  (∃ text, w.current = some (t, .exporting doc kind title :: base, .start (.compile text))) ∨
    ∃ S, w.Working S t (.exporting doc kind title :: base)

/-- An export that has its answer is over with the step. -/
theorem exported_stack (ends : s.IsEnd)
    (running : w.current = some (t, .exporting doc kind title :: base, s)) : w.tick.stackOf t = base := by
  rw [tick_running running]
  cases s with
  | start => exact ends.elim
  | value v => rcases v with _ | _ | ⟨_ | _⟩ | _ | _ | _ <;> exact stackOf_running rfl
  | fault | cancelled => exact stackOf_running rfl

theorem Flight.apply_exporting (h : Flight ms b w) (exporting : w.Exporting) (allowed : i.IsPublic) :
    (w.apply i).Exporting := by
  intro t doc kind title base on
  by_cases steps : w.Steps i t
  · obtain ⟨rfl, fs, s, running⟩ := steps
    obtain ⟨x, l, -, next, eq, stack⟩ := h.tick_stack running
    have laid : .exporting doc kind title :: base <:+ l.frames := stack ▸ on
    have before : .exporting doc kind title :: base <:+ fs ∨
        ∃ text, w.tick.current = some (t, .exporting doc kind title :: base, .start (.compile text)) := by
      rcases next.laid with ⟨top, suffix, laidOn⟩ | ⟨doc', text, kind', title', rfl, rfl⟩
      · exact .inl ((laidOn.suffix (f := .exporting doc kind title) rfl laid).trans suffix)
      · rcases List.suffix_cons_iff.1 laid with same | below
        · exact .inr ⟨text, by rw [eq, same]; rfl⟩
        · exact .inl below
    rcases before with before | asked
    · rw [← stackOf_running running] at before
      rcases exporting t doc kind title base before with ⟨text, now⟩ | ⟨S, work⟩
      · have begins : w.tick = w.beginCompile t (.exporting doc kind title :: base) text := tick_running now
        exact .inr ⟨_, begins ▸ working_beginCompile (h.there now) _ text⟩
      · refine .inr ⟨S, h.apply_working work (i := .tick) allowed fun s' _ now => ?_⟩
        have ends : s'.IsEnd := by
          rcases work.back h now with rfl | ⟨o, rfl, -⟩
          · trivial
          · exact answerSignal_end o
        rw [stack.symm.trans (exported_stack ends now)] at laid
        exact absurd laid.length_le (by simp)
    · exact .inl asked
  · rw [h.apply_stack allowed steps] at on
    rcases exporting t doc kind title base on with ⟨text, now⟩ | ⟨S, work⟩
    · exact .inl ⟨text, current_apply now fun tick => steps ⟨tick, _, _, now⟩⟩
    · exact .inr ⟨S, h.apply_working work allowed fun s tick now => steps ⟨tick, _, _, now⟩⟩

/-- In every state that comes about, a task that is in an export compiles for it, or is back. -/
theorem run_exporting (new : w.IsNew) (allowed : ∀ i ∈ inputs, i.IsPublic) : (w.run inputs).Exporting := by
  have nobody : w.Exporting := by
    intro t doc kind title base on
    simp [stackOf, new.current, new.tasks] at on
  have kept : ∀ (ms : List Mark) (v : World) (i : Input), Flight ms (w.bench none) v ∧ v.Exporting → i.IsPublic →
      Flight (ms ++ v.marks i) (w.bench none) (v.apply i) ∧ (v.apply i).Exporting :=
    fun _ _ _ h given => ⟨h.1.apply given, h.1.apply_exporting h.2 given⟩
  exact (run_induct (I := fun ms v => Flight ms (w.bench none) v ∧ v.Exporting) kept ⟨new.flight, nobody⟩ inputs allowed).2

/-- Every step of a task that is in an export keeps aloof. -/
theorem Flight.export_aloof (h : Flight ms b w) (meeting : w.Meeting) (tailed : w.Tailed) (exporting : w.Exporting)
    (here : w.InExport t) (running : w.current = some (t, fs, s)) : w.Aloof w.tick := by
  rw [tick_running running]
  rcases here with ⟨fs', doc, text, kind, title, now⟩ | ⟨f, mem, own⟩
  · cases running.symm.trans now
    cases kind with
    | source | compiled | web => exact ⟨rfl, rfl, rfl, rfl⟩
  · cases f with
    | exporting doc kind title =>
      obtain ⟨pushed, base, stack⟩ := List.append_of_mem mem
      rcases exporting t doc kind title base ⟨pushed, stack.symm⟩ with ⟨text, now⟩ | ⟨S, work⟩
      · cases running.symm.trans now
        exact .beginCompile w t _ text
      · obtain ⟨pre, rfl, doing⟩ := h.sits_running work running
        by_cases above : pre = []
        · subst above
          cases doing with
          | @came o =>
            rcases o with f | o
            · exact ⟨rfl, rfl, rfl, rfl⟩
            · exact .exportCompiled w t base doc kind title _
          | cancelled => exact ⟨rfl, rfl, rfl, rfl⟩
        · exact h.doing_aloof meeting tailed doing running above
    | _ => cases own

/-- A task that works for an export waits neither for a lock nor for a group. -/
theorem Flight.secluded_alone (h : Flight ms b w) (meeting : w.Meeting) (exporting : w.Exporting)
    (works : w.WorksForExport t) {k : Task} (found : w.tasks[t]? = some k) :
    (∀ s, k.wait ≠ .lock s) ∧ ∀ g, k.wait ≠ .group g := by
  by_cases runs : ∃ fs s, w.current = some (t, fs, s)
  · obtain ⟨k', found', running⟩ := (h.steady.midst.agrees t).2 runs
    obtain rfl := Option.some.inj (found.symm.trans found')
    exact ⟨by simp [running], by simp [running]⟩
  · have other : ∀ fs s, w.current ≠ some (t, fs, s) := fun fs s running => runs ⟨fs, s, running⟩
    have post : w.post? t = some k.post := by rw [post?_other other, found]; rfl
    refine h.alone meeting found fun f gs top => ?_
    rcases works with (⟨fs, doc, text, kind, title, now⟩ | ⟨g, mem, own⟩) | ⟨q, found', following⟩
    · exact absurd now (other _ _)
    · cases g with
      | exporting doc kind title =>
        obtain ⟨pushed, base, stack⟩ := List.append_of_mem mem
        rcases exporting t doc kind title base ⟨pushed, stack.symm⟩ with ⟨text, now⟩ | ⟨S, pre, s, doing, place⟩
        · exact absurd now (other _ _)
        · obtain ⟨above, -, wait, post'⟩ := place.resolve_left (other _ _)
          obtain ⟨frames, -⟩ := Post.mk.inj (Option.some.inj (post.symm.trans post'))
          rw [top] at frames
          cases doing with
          | came | cancelled => exact absurd rfl above
          | followed | running | following | limited | stopping | reaping =>
            obtain ⟨rfl, -⟩ := List.cons.inj frames
            exact ⟨id, nofun⟩
      | _ => cases own
    · obtain rfl := Option.some.inj (post.symm.trans found')
      obtain ⟨p, rfl⟩ := following.frames f (show f ∈ k.frames by simp [top])
      exact ⟨id, nofun⟩

theorem exportSignal_answer (other : kind ≠ .source) : w.exportSignal kind title (compileAnswer found c) =
    exportAnswer w.gallery.tag text kind title found c := by
  unfold exportAnswer
  cases kind with
  | source => exact absurd rfl other
  | compiled | web => rcases compileAnswer found c with f | story | ⟨k, m⟩ <;> rfl

/-- A task that works for an export leaves what belongs to the documents alone when it is next. -/
theorem Flight.next_aloof (h : Flight ms b w) (meeting : w.Meeting) (tailed : w.Tailed) (exporting : w.Exporting)
    (works : w.WorksForExport t) (next : w.IsNext t) : w.Aloof (w.apply .tick) := by
  rcases next with ⟨fs, s, running⟩ | ⟨idle, rest, first⟩
  · rcases works with here | ⟨q, found, following⟩
    · exact h.export_aloof meeting tailed exporting here running
    · obtain rfl := Option.some.inj ((h.post?_running running).symm.trans found)
      rw [show w.apply .tick = _ from tick_running running]
      exact following_aloof following
  · have turns : w.apply .tick = { w with queue := rest }.resume t ∨
      ∃ f, w.apply .tick = { w with queue := rest }.learn t f := by
      rcases first with first | ⟨f, first⟩
      · exact .inl (by simp only [World.apply, tick, idle, first]; rfl)
      · exact .inr ⟨f, by simp only [World.apply, tick, idle, first]; rfl⟩
    have taken : w.Aloof { w with queue := rest } := ⟨rfl, rfl, rfl, rfl⟩
    rcases turns with eq | ⟨f, eq⟩
    · exact eq ▸ taken.trans (.resume _ t)
    · exact eq ▸ taken.trans (.learn _ t f)

end
end World
end InkPreview.Live
