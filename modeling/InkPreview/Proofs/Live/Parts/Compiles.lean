import InkPreview.Proofs.Live.Parts.Edits
/-!
Compiles and exports in a part. The compiler runs for a part as it runs for the whole, and what it came to is settled
there in the same way.
-/
namespace InkPreview.Live

variable {e f : Inlay}

namespace World
variable {w : World}

@[simp] theorem extent_stopFollower (w : World) (t : TaskId) (fs : List Frame) (p : ProcessId) (m : TaskId)
    (why : KillReason) :
    (w.stopFollower t fs p m why).extent = w.extent := by
  unfold World.stopFollower
  dsimp only
  rw [extent_park, extent_cancel, extent_modifyTask]

theorem extent_awaitProcess (w : World) (t : TaskId) (fs : List Frame) (p : ProcessId) :
    (w.awaitProcess t fs p).extent =
      if w.setup.limit.isZero then w.extent else { w.extent with tasks := w.tasks.length + 1 } := by
  have spawned := extent_spawn w (.follow p) fun m => [.report t m]
  unfold World.awaitProcess
  dsimp only
  split
  · rfl
  · split
    · rw [extent_stopFollower, spawned]
    · rw [extent_park, extent_setAlarm, spawned]

end World

namespace World.Parted
variable {w v u : World} {t : TaskId} {s : SlotId}

/-! ### Running the compiler -/

theorem conclude (h : Parted e f w v u) (t : TaskId) (fs : List Frame) (o : Outcome) :
    Parted e f (w.conclude (e.task t) (fs.map (·.via e)) o) (v.conclude t fs o) u := by
  cases o with
  | success => exact (h.count _).ret t fs _
  | failed => exact (h.countBy _ _ _).ret t fs _

theorem noteRun (h : Parted e f w v u) (n : Option RunNote) : Parted e f (w.noteRun n) (v.noteRun n) u := by
  rcases n with _ | _ | _ | _
  · exact h
  all_goals exact h.note _ _

theorem processExited (h : Parted e f w v u) (t : TaskId) (fs : List Frame) (p : ProcessId) :
    Parted e f (w.processExited (e.task t) (fs.map (·.via e)) (e.process p)) (v.processExited t fs p) u := by
  have at_p := h.process p
  unfold World.processExited
  rw [at_p]
  cases v.processes[p]? with
  | none => exact h.ret t fs .unit
  | some k =>
    have ended := (h.setProcess p .exited).emit (.exited w.clock (e.process p) k.child.exitCode)
      (.exited v.clock p k.child.exitCode) (fun _ _ _ => nofun) fun _ _ _ => nofun
    exact ended.ret t fs .unit

theorem beginFollow (h : Parted e f w v u) (t : TaskId) (fs : List Frame) (p : ProcessId) :
    Parted e f (w.beginFollow (e.task t) (fs.map (·.via e)) (e.process p)) (v.beginFollow t fs p) u := by
  have at_p := h.process p
  unfold World.beginFollow
  rw [at_p]
  cases v.processes[p]? with
  | none => exact h.ret t fs .unit
  | some k =>
    simp only [Option.map_some, Process.via]
    split
    · exact h.processExited t fs p
    · exact h.sleep t (.following p :: fs) _

theorem readOutcome (h : Parted e f w v u) (t : TaskId) (fs : List Frame) (p : ProcessId) :
    Parted e f (w.readOutcome (e.task t) (fs.map (·.via e)) (e.process p)) (v.readOutcome t fs p) u := by
  have at_p := h.process p
  unfold World.readOutcome
  rw [at_p]
  cases v.processes[p]? with
  | none => exact h.conclude t fs _
  | some k => exact (h.noteRun _).conclude t fs _

theorem reaped (h : Parted e f w v u) (t : TaskId) (fs : List Frame) (why : KillReason) :
    Parted e f (w.reaped (e.task t) (fs.map (·.via e)) why) (v.reaped t fs why) u := by
  cases why with
  | timedOut =>
    have concluded := (h.note (.timedOut w.setup.limit) (.timedOut v.setup.limit)).conclude t fs
      (.failed .processError (timedOutMessage v.setup.limit))
    unfold World.reaped
    rwa [h.mine.setup] at concluded ⊢
  | cancelled => exact (h.note _ _).unwind t fs

theorem kill (h : Parted e f w v u) (t : TaskId) (fs : List Frame) (p : ProcessId) (why : KillReason) :
    Parted e f (w.kill (e.task t) (fs.map (·.via e)) (e.process p) why) (v.kill t fs p why) u := by
  have at_p := h.process p
  unfold World.kill
  rw [at_p]
  cases v.processes[p]? with
  | none => exact h.reaped t fs why
  | some k =>
    have killed := (h.setProcess p .killed).emit (.killed w.clock (e.process p)) (.killed v.clock p)
      (fun _ _ _ => nofun) fun _ _ _ => nofun
    simp only [Option.map_some, Process.via]
    split
    · exact killed.reaped t fs why
    · split
      · have gone := killed.emit (.reaped w.clock (e.process p)) (.reaped v.clock p) (fun _ _ _ => nofun) fun _ _ _ => nofun
        exact gone.reaped t fs why
      · exact killed.sleep t (.reaping p why :: fs) _

theorem stopFollower (h : Parted e f w v u) (t : TaskId) (fs : List Frame) (p : ProcessId) (m : TaskId)
    (why : KillReason) :
    Parted e f (w.stopFollower (e.task t) (fs.map (·.via e)) (e.process p) (e.task m) why) (v.stopFollower t fs p m why) u := by
  have watched := h.modifyTask m (fun k => { k with watchers := [.report t m] })
    (fun k => { k with watchers := [.report (e.task t) (e.task m)] }) fun _ => rfl
  exact (watched.cancel m).park t (.stoppingFollower p why :: fs) (.follower m)

theorem limitedWaitOver (h : Parted e f w v u) (t : TaskId) (fs : List Frame) (p : ProcessId) (m : TaskId)
    (why : KillReason) :
    Parted e f (w.limitedWaitOver (e.task t) (fs.map (·.via e)) (e.process p) (e.task m) why)
      (v.limitedWaitOver t fs p m why) u := by
  unfold World.limitedWaitOver
  rw [h.hasEnded, h.wasCancelled, h.mine.setup]
  split
  · split
    · exact h.kill t fs p .cancelled
    · split
      · exact h.reaped t fs .cancelled
      · exact h.readOutcome t fs p
  · exact h.stopFollower t fs p m why

theorem awaitProcess (h : Parted e f w v u) (t : TaskId) (fs : List Frame) (p : ProcessId)
    (room : e.Room w.extent (w.awaitProcess (e.task t) (fs.map (·.via e)) (e.process p)).extent) :
    Parted e f (w.awaitProcess (e.task t) (fs.map (·.via e)) (e.process p)) (v.awaitProcess t fs p) u := by
  rw [extent_awaitProcess] at room
  unfold World.awaitProcess
  dsimp only
  rw [h.mine.setup]
  by_cases unlimited : w.setup.limit.isZero = true
  · rw [if_pos unlimited, if_pos unlimited]
    exact h.call t (.running p :: fs) (.follow p)
  · rw [if_neg unlimited] at room
    rw [if_neg unlimited, if_neg unlimited]
    obtain ⟨new, spawned⟩ := h.spawn (Op.via_follow e p) (room.task (Nat.succ_ne_self _)) (fun m => [.report t m])
      (fun m => [.report (e.task t) m]) fun _ => rfl
    rw [new]
    split
    · exact spawned.stopFollower t fs p _ .timedOut
    · exact (spawned.setAlarm t _).park t (.limited p _ :: fs) (.follower _)

theorem invoke (h : Parted e f w v u) (t : TaskId) (fs : List Frame) (executable : Option String) (source : String)
    (room : e.Room w.extent (w.invoke (e.task t) (fs.map (·.via e)) executable source).extent) :
    Parted e f (w.invoke (e.task t) (fs.map (·.via e)) executable source) (v.invoke t fs executable source) u := by
  cases executable with
  | none => exact h.ret t fs _
  | some exe =>
    have counted := h.count "compile.started"
    have setup : (v.count "compile.started").setup.child source = (w.count "compile.started").setup.child source :=
      congrArg (fun x : Setup => x.child source) counted.mine.setup
    unfold World.invoke at room ⊢
    dsimp only at room ⊢
    rw [setup]
    rcases writes : ((w.count "compile.started").setup.child source).writeFault with _ | m | ⟨name, m⟩
    · rcases starts : ((w.count "compile.started").setup.child source).startFault with _ | m | ⟨name, m⟩
      · simp only [writes, starts] at room ⊢
        have here : ∃ i, e.process i = (w.count "compile.started").processes.length := by
          refine room.process ?_
          rw [extent_awaitProcess]
          split <;> simp [extent, World.emit, World.count]
        obtain ⟨next, added⟩ := counted.addProcess
          ⟨(w.count "compile.started").setup.child source, source, t, .alive⟩
          ⟨(w.count "compile.started").setup.child source, source, e.task t, .alive⟩ rfl here
        have emitted := added.emit
          (.spawned (w.count "compile.started").clock (w.count "compile.started").processes.length exe source)
          (.spawned (v.count "compile.started").clock (v.count "compile.started").processes.length exe source)
          (by simp) (by simp)
        rw [next] at room emitted ⊢
        refine emitted.awaitProcess t fs _ ?_
        exact { room with process := fun more => absurd (by rw [extent_awaitProcess]; split <;> rfl) more }
      · exact (counted.note _ _).conclude t fs _
      · exact counted.fail t fs _
    · exact counted.ret t fs _
    · exact counted.fail t fs _

theorem beginCompile (h : Parted e f w v u) (t : TaskId) (fs : List Frame) (source : String)
    (room : e.Room w.extent (w.beginCompile (e.task t) (fs.map (·.via e)) source).extent) :
    Parted e f (w.beginCompile (e.task t) (fs.map (·.via e)) source) (v.beginCompile t fs source) u := by
  have noted := h.noteAll w.finder.notes
  have found := noted.mine.finder
  have finder : ∀ (x : World) ns, (x.noteAll ns).finder = x.finder := by
    intro x ns
    induction ns generalizing x with
    | nil => rfl
    | cons n rest ih => exact ih (x.note n)
  unfold World.beginCompile at room ⊢
  dsimp only at room ⊢
  rw [h.mine.finder, found]
  cases answer : (w.noteAll w.finder.notes).finder.answer with
  | error x => exact noted.fail t fs x
  | ok exe =>
    simp only [answer] at room ⊢
    rw [← extent_noteAll w w.finder.notes] at room
    exact noted.invoke t fs exe source room

/-! ### Requests -/

theorem locked (h : Parted e f w v u) (t : TaskId) (fs : List Frame) (q : Request) :
    Parted e f (w.locked (e.task t) (fs.map (·.via e)) (q.via e)) (v.locked t fs q) u := by
  have same : w.isCurrent (q.via e).slot (q.via e).generation = v.isCurrent q.slot q.generation := h.isCurrent _ _
  unfold World.locked
  rw [same]
  split
  · exact ((h.note _ _).release q.slot).ret t fs .unit
  · exact h.call t (.holding q :: fs) (.compile q.text)

theorem acquire (h : Parted e f w v u) (t : TaskId) (fs : List Frame) (q : Request) :
    Parted e f (w.acquire (e.task t) (fs.map (·.via e)) (q.via e)) (v.acquire t fs q) u := by
  have free : ((w.slots[e.slot q.slot]?.map (·.lock.isOpen)).getD false) = ((v.slots[q.slot]?.map (·.lock.isOpen)).getD false) := by
    rw [h.slot]
    cases v.slots[q.slot]? with
    | none => rfl
    | some k => simp [Slot.via, Lock.via, Lock.isOpen, List.all_map, Function.comp_def]
  simp only [World.acquire, Request.via, free]
  split
  · exact (h.setHeld q.slot true).locked t fs q
  · refine Parted.park ?_ t (.queueing q :: fs) (.lock q.slot)
    exact h.modifySlot q.slot _ _ (fun k => by simp [Slot.via, Lock.via]) fun _ => rfl

theorem quietEnded (h : Parted e f w v u) (t : TaskId) (fs : List Frame) (q : Request) :
    Parted e f (w.quietEnded (e.task t) (fs.map (·.via e)) (q.via e)) (v.quietEnded t fs q) u := by
  have forgotten := h.modifySlot q.slot (fun k => if k.pending = some t then { k with pending := none } else k)
    (fun k => if k.pending = some (e.task t) then { k with pending := none } else k)
    (fun k => by
      have inj : (k.via e).pending = some (e.task t) ↔ k.pending = some t := by
        simp only [Slot.via, Option.map_eq_some_iff]
        constructor
        · rintro ⟨m, found, same⟩
          rw [found, h.apart.task.left.injective same]
        · exact fun found => ⟨t, found, rfl⟩
      by_cases here : k.pending = some t
      · rw [if_pos here, if_pos (inj.2 here)]
        rfl
      · rw [if_neg here, if_neg (inj.not.2 here)])
    fun k => by split <;> rfl
  have same := forgotten.isCurrent q.slot q.generation
  simp only [World.quietEnded, Request.via, same]
  split
  · exact forgotten.acquire t fs q
  · exact forgotten.ret t fs .unit

theorem called (h : Parted e f w v u) (t : TaskId) (fs : List Frame) (q : Request) :
    Parted e f (w.called (e.task t) (fs.map (·.via e)) (q.via e)) (v.called t fs q) u :=
  ((h.leaveQueue q.slot t).setHeld q.slot true).locked t fs q

theorem leftQueue (h : Parted e f w v u) (t : TaskId) (fs : List Frame) (q : Request) :
    Parted e f (w.leftQueue (e.task t) (fs.map (·.via e)) (q.via e)) (v.leftQueue t fs q) u := by
  have left := h.leaveQueue q.slot t
  have held : (((w.leaveQueue (e.slot q.slot) (e.task t)).slots[e.slot q.slot]?.map (·.lock.held)).getD false) =
      (((v.leaveQueue q.slot t).slots[q.slot]?.map (·.lock.held)).getD false) := by
    rw [left.slot]
    cases (v.leaveQueue q.slot t).slots[q.slot]? <;> rfl
  simp only [World.leftQueue, Request.via, held]
  split
  · exact left.unwind t fs
  · exact (left.callNext q.slot).unwind t fs

theorem settle (h : Parted e f w v u) (t : TaskId) (fs : List Frame) {q : Request}
    (of : e.docs (.name q.doc)) (o : Outcome)
    (room : e.Room w.extent (w.settle (e.task t) (fs.map (·.via e)) (q.via e) o).extent) :
    Parted e f (w.settle (e.task t) (fs.map (·.via e)) (q.via e) o) (v.settle t fs q o) u := by
  have same : w.isCurrent (q.via e).slot (q.via e).generation = v.isCurrent q.slot q.generation := h.isCurrent _ _
  unfold World.settle at room ⊢
  rw [same] at room ⊢
  split
  · exact ((h.count _).note _ _).ret t fs .unit
  · rename_i current
    rw [if_neg current] at room
    cases o with
    | success story =>
      exact h.deliver t fs q.slot of _ _ fun more => room.page more
    | failed k m =>
      exact (h.note _ _).deliver t fs q.slot of _ _ fun more => room.page more

theorem compiled (h : Parted e f w v u) (t : TaskId) (fs : List Frame) {q : Request}
    (of : e.docs (.name q.doc)) (y : Value)
    (room : e.Room w.extent (w.compiled (e.task t) (fs.map (·.via e)) (q.via e) y).extent) :
    Parted e f (w.compiled (e.task t) (fs.map (·.via e)) (q.via e) y) (v.compiled t fs q y) u := by
  have released := h.release q.slot
  cases y with
  | outcome o =>
    refine released.settle t fs of o ?_
    rw [extent_release]
    exact room
  | _ => exact released.ret t fs .unit

theorem compileCrashed (h : Parted e f w v u) (t : TaskId) (fs : List Frame) {q : Request}
    (of : e.docs (.name q.doc)) (x : Fault)
    (room : e.Room w.extent (w.compileCrashed (e.task t) (fs.map (·.via e)) (q.via e) x).extent) :
    Parted e f (w.compileCrashed (e.task t) (fs.map (·.via e)) (q.via e) x) (v.compileCrashed t fs q x) u := by
  refine ((h.note _ _).release q.slot).settle t fs of _ ?_
  rw [extent_release]
  exact room

/-! ### Exports -/

theorem beginExport (h : Parted e f w v u) (t : TaskId) (fs : List Frame) (doc text : String) (kind : ExportKind)
    (title : Option String) : Parted e f (w.beginExport (e.task t) (fs.map (·.via e)) doc text kind title)
      (v.beginExport t fs doc text kind title) u := by
  cases kind with
  | source => exact (h.countBy _ _ _).ret t fs _
  | _ => exact h.call t (.exporting doc _ title :: fs) (.compile text)

theorem exportCompiled (h : Parted e f w v u) (t : TaskId) (fs : List Frame) (doc : String) (kind : ExportKind)
    (title : Option String) (y : Value) :
    Parted e f (w.exportCompiled (e.task t) (fs.map (·.via e)) doc kind title y) (v.exportCompiled t fs doc kind title y) u := by
  have content : ∀ story, w.exportContent kind title story = v.exportContent kind title story := by
    intro story
    unfold World.exportContent Gallery.build
    rw [h.mine.gallery.tag]
  cases y with
  | outcome o =>
    cases o with
    | success story =>
      unfold World.exportCompiled
      dsimp only
      rw [content]
      exact ((h.countBy _ _ _).note _ _).ret t fs _
    | failed k m => exact ((h.countBy _ _ _).note _ _).fail t fs _
  | _ => exact h.ret t fs .unit

end World.Parted
end InkPreview.Live
