import InkPreview.Proofs.Live.Parts.Compiles
/-!
Steps of a part. A step of the whole on behalf of one part is a step of that part, and leaves the other part as it is.
Main statement: `Parted.move`.
-/
namespace InkPreview.Live

variable {e f : Inlay}

namespace World
namespace Parted
variable {w v u : World} {t : TaskId} {fs : List Frame}

theorem begin (h : Parted e f w v u) (distinct : Distinct w.seats) {op : Op} (of : op.IsOf e.docs)
    (room : e.Room w.extent (w.begin (e.task t) (fs.map (·.via e)) (op.via e)).extent) :
    Parted e f (w.begin (e.task t) (fs.map (·.via e)) (op.via e)) (v.begin t fs op) u := by
  cases op with
  | edit doc text => exact h.beginEdit distinct t fs of text room
  | close doc => exact h.beginClose distinct t fs of room
  | waitIdle doc => exact h.beginWaitIdle distinct t fs of room
  | compile text => exact h.beginCompile t fs text room
  | exportAs doc text kind title => exact h.beginExport t fs doc text kind title
  | sleep micros => exact h.sleep t fs micros
  | reportedEdit doc text => exact h.call t (.reporting :: fs) (.edit doc text)
  | background q =>
    have slept := h.sleep t (.quiet q :: fs) w.setup.quiet
    rw [← h.mine.setup] at slept
    simp only [World.begin, Op.via, ← h.mine.setup]
    exact slept
  | follow p => exact h.beginFollow t fs p
  | closeAll | stop | handle | converse | send | request | together => exact of.elim

theorem proceed (h : Parted e f w v u) (own : ∀ y ∈ v.subscribers, y.IsOwn) {g : Frame} (of : g.IsOf e.docs) (y : Value)
    (room : e.Room w.extent (w.proceed (e.task t) (fs.map (·.via e)) y (g.via e)).extent) :
    Parted e f (w.proceed (e.task t) (fs.map (·.via e)) y (g.via e)) (v.proceed t fs y g) u := by
  cases g with
  | issued n => exact h.ret t fs _
  | notifying y' rest => exact h.tellNext own t fs of rest room
  | acting i y' todo => exact h.act t fs i y' of.2
  | quiet q => exact h.quietEnded t fs q
  | queueing q => exact h.called t fs q
  | holding q => exact h.compiled t fs of y room
  | running p => exact h.readOutcome t fs p
  | limited p m => exact h.limitedWaitOver t fs p m .timedOut
  | stoppingFollower p why => exact h.kill t fs p why
  | following p => exact h.processExited t fs p
  | reaping p why =>
    have gone := h.emit (.reaped w.clock (e.process p)) (.reaped v.clock p) (fun _ _ _ => nofun) fun _ _ _ => nofun
    exact gone.reaped t fs why
  | closing doc n => exact h.closed t fs doc n
  | idling s => exact h.awaitIdle t fs s room
  | exporting doc kind title => exact h.exportCompiled t fs doc kind title y
  | reporting =>
    cases y with
    | generation n =>
      have done := h.emit (.editDone w.clock n) (.editDone v.clock n) (fun _ _ _ => nofun) fun _ _ _ => nofun
      exact done.ret t fs _
    | _ => exact h.ret t fs _
  | broadcasting | closingAll | stopping | acknowledging | confirming | serving | receiving | sending | collecting |
    answeringEdit | answeringExport | answering => exact of.elim

theorem recover (h : Parted e f w v u) (own : ∀ y ∈ v.subscribers, y.IsOwn) {g : Frame} (of : g.IsOf e.docs) (x : Fault)
    (room : e.Room w.extent (w.recover (e.task t) (fs.map (·.via e)) x (g.via e)).extent) :
    Parted e f (w.recover (e.task t) (fs.map (·.via e)) x (g.via e)) (v.recover t fs x g) u := by
  cases g with
  | notifying y rest => exact h.subscriberFailed own t fs of rest x room
  | holding q => exact h.compileCrashed t fs of x room
  | broadcasting | closingAll | stopping | acknowledging | confirming | serving | receiving | sending | collecting |
    answeringEdit | answeringExport | answering => exact of.elim
  | _ => exact h.fail t fs x

theorem abort (h : Parted e f w v u) {g : Frame} (of : g.IsOf e.docs) :
    Parted e f (w.abort (e.task t) (fs.map (·.via e)) (g.via e)) (v.abort t fs g) u := by
  cases g with
  | quiet q => exact (h.note _ _).ret t fs .unit
  | queueing q => exact h.leftQueue t fs q
  | holding q => exact (h.release q.slot).unwind t fs
  | running p => exact h.kill t fs p .cancelled
  | stoppingFollower p why => exact h.kill t fs p .cancelled
  | limited p m => exact h.limitedWaitOver t fs p m .cancelled
  | broadcasting | closingAll | stopping | acknowledging | confirming | serving | receiving | sending | collecting |
    answeringEdit | answeringExport | answering => exact of.elim
  | _ => exact h.unwind t fs

/-- A step on behalf of a part is a step of that part. -/
theorem move (h : Parted e f w v u) (distinct : Distinct w.seats) (own : ∀ y ∈ v.subscribers, y.IsOwn) {x : Signal}
    (frames : ∀ g ∈ fs, g.IsOf e.docs) (begins : x.IsOf e.docs)
    (room : e.Room w.extent (w.move (e.task t) (fs.map (·.via e)) (x.via e)).extent) :
    Parted e f (w.move (e.task t) (fs.map (·.via e)) (x.via e)) (v.move t fs x) u := by
  cases x with
  | start op => exact h.begin distinct begins room
  | value y =>
    cases fs with
    | nil => exact h.finish t _
    | cons g rest => exact h.proceed own (frames g List.mem_cons_self) y room
  | fault y =>
    cases fs with
    | nil => exact h.finish t _
    | cons g rest => exact h.recover own (frames g List.mem_cons_self) y room
  | cancelled =>
    cases fs with
    | nil => exact h.finish t _
    | cons g rest => exact h.abort (frames g List.mem_cons_self)

end Parted
end World
end InkPreview.Live
