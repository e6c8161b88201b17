import InkPreview.Proofs.Live.Stacks
/-!
Meetings. Only a closing, a wait for a document to be idle and the collecting of several results wait for a group,
and a task that waits for one has the frame on top. Main statement: `run_meeting`.
-/
namespace InkPreview.Live

/-- A frame that may wait for a group. -/
def Frame.Meets : Frame → Prop
  | .closing .. | .idling _ | .collecting _ => True
  | _ => False

/-- Frames to wait with: for a group only below one that may. -/
def Convenes (fs : List Frame) (wait : Wait) : Prop := ∀ g, wait = .group g → ∃ f gs, fs = f :: gs ∧ f.Meets

def Landing.Convenes : Landing → Prop
  | .park fs wait | .timed fs wait _ => Live.Convenes fs wait
  | _ => True

/-- A wait for neither a group nor a lock. -/
def Wait.IsLone : Wait → Prop
  | .group _ | .lock _ => False
  | _ => True

theorem Wait.IsLone.apart {wait : Wait} (h : wait.IsLone) (g : GroupId) : wait ≠ .group g := by
  rintro rfl
  exact h

/-- No task of `ys` waits for a group or a lock but as it did in `xs`. -/
def Convened (xs ys : List Task) : Prop := ∀ (u : TaskId) k', ys[u]? = some k' →
  k'.wait.IsLone ∨ ∃ k, xs[u]? = some k ∧ k'.frames = k.frames ∧ k'.wait = k.wait

namespace Convened
variable {xs ys zs : List Task}

theorem refl (xs : List Task) : Convened xs xs := fun _ k found => .inr ⟨k, found, rfl, rfl⟩

theorem of_eq (h : ys = xs) : Convened xs ys := by
  rw [h]
  exact refl xs

theorem trans (h : Convened xs ys) (h' : Convened ys zs) : Convened xs zs := by
  intro u k'' found
  rcases h' u k'' found with apart | ⟨k', found', frames, wait⟩
  · exact .inl apart
  · rcases h u k' found' with apart | ⟨k, old, frames', wait'⟩
    · exact .inl (wait ▸ apart)
    · exact .inr ⟨k, old, frames.trans frames', wait.trans wait'⟩

theorem modify (xs : List Task) (t : TaskId) {f : Task → Task}
    (kept : ∀ k, (f k).wait.IsLone ∨ (f k).frames = k.frames ∧ (f k).wait = k.wait) :
    Convened xs (xs.modify t f) := by
  intro u k' found
  simp only [List.getElem?_modify, Option.map_eq_map, Option.map_eq_some_iff] at found
  obtain ⟨k, old, rfl⟩ := found
  split
  · exact (kept k).imp id fun same => ⟨k, old, same⟩
  · exact .inr ⟨k, old, rfl, rfl⟩

/-- Who waits for a lock did so before. -/
theorem locked (h : Convened xs ys) {u : TaskId} {k' : Task} {s : SlotId} (found : ys[u]? = some k')
    (locked : k'.wait = .lock s) :
    ∃ k, xs[u]? = some k ∧ k.wait = .lock s := by
  rcases h u k' found with lone | ⟨k, old, -, wait⟩
  · rw [locked] at lone
    exact lone.elim
  · exact ⟨k, old, wait ▸ locked⟩

theorem append (xs : List Task) {k : Task} (apart : k.wait.IsLone) : Convened xs (xs ++ [k]) := by
  intro u k' found
  rcases World.getElem?_concat_iff.1 found with old | ⟨-, rfl⟩
  · exact .inr ⟨k', old, rfl, rfl⟩
  · exact .inl apart

end Convened

namespace World

/-- A task that waits for a group has a frame on top that may. -/
def Meeting (w : World) : Prop := ∀ (u : TaskId) k, w.tasks[u]? = some k → Convenes k.frames k.wait

section
variable {ms : List Mark} {b : Bench} {now w v : World} {t u : TaskId} {fs : List Frame} {s : Signal} {l : Landing}
  {ks : List Slot} {i : Input}

theorem Meeting.mono (h : w.Meeting) (convened : Convened w.tasks v.tasks) : v.Meeting := by
  intro u k' found g waits
  rcases convened u k' found with apart | ⟨k, old, frames, wait⟩
  · exact absurd waits (apart.apart g)
  · exact frames ▸ h u k old g (wait ▸ waits)

theorem Nudge.convened {H : TaskId → Prop} (h : Nudge H w v) : Convened w.tasks v.tasks := by
  cases h with
  | ask => exact .modify _ _ fun _ => .inr ⟨rfl, rfl⟩
  | regroup => exact .refl _
  | detach =>
    rw [detach_tasks]
    exact .modify _ _ fun _ => .inl trivial
  | ring | join | learn | hear => exact .modify _ _ fun _ => .inl trivial

theorem Nudges.convened {H : TaskId → Prop} (h : Nudges H w v) : Convened w.tasks v.tasks :=
  h.keep (P := fun x => Convened w.tasks x.tasks) (fun _ _ kept step => kept.trans step.convened) (.refl _)

theorem stopped_convened (w : World) (t f : TaskId) : Convened w.tasks (w.stopped t f).tasks := by
  have freed : Convened w.tasks (w.modifyTask f fun k => { k with watchers := [.report t f] }).tasks :=
    .modify _ f fun _ => .inr ⟨rfl, rfl⟩
  exact freed.trans (cancel_nudges _ f).convened

theorem enroll_convened (w : World) (t : TaskId) (members : List TaskId) : Convened w.tasks
    (w.enroll t members).tasks := by
  obtain ⟨ks, js, eq, -, task⟩ := enroll_eq w t members
  rw [eq]
  intro u k' found
  obtain ⟨k, n, old, rfl⟩ := task u k' found
  exact .inr ⟨k, old, rfl, rfl⟩

theorem Aside.convened (h : Aside t w v) : Convened w.tasks v.tasks := by
  cases h with
  | alike h => exact .of_eq h.tasks
  | files | call | process | launch => exact .refl _
  | enroll => exact enroll_convened w t _
  | spawn | follow => exact .append _ trivial
  | stop f => exact stopped_convened w t f
  | forestall p =>
    have begun : Convened w.tasks (w.spawn (.follow p) fun f => [.report t f]).2.tasks := .append _ trivial
    exact begun.trans (stopped_convened _ t _)

theorem Deeds.convened (h : now.Deeds w v) : Convened w.tasks v.tasks := by
  induction h with
  | refl => exact .refl _
  | tail _ step ih =>
    refine ih.trans ?_
    cases step with
    | aside h => exact h.convened
    | slots | gauge | render | discard => exact .refl _
    | call => exact .modify _ _ fun _ => .inl trivial
    | hire => exact .append _ trivial
    | cancel => exact (cancel_nudges _ _).convened

theorem Stirs.convened (h : Stirs i w v) : Convened w.tasks v.tasks := by
  induction h with
  | refl => exact .refl _
  | tail _ step ih =>
    refine ih.trans ?_
    cases step with
    | alike h => exact .of_eq h.tasks
    | later | child | enables | dates | taken | counts => exact .refl _
    | nudge h => exact h.convened
    | cancel => exact (cancel_nudges _ _).convened
    | spawn => exact .append _ trivial

theorem Meeting.park (h : w.Meeting) (t : TaskId) (fs : List Frame) {wait : Wait} (convenes : Convenes fs wait) :
    (w.park t fs wait).Meeting := by
  have yielded : (w.yield t fs wait).Meeting := by
    intro u k' found
    simp only [yield, modifyTask, List.getElem?_modify, Option.map_eq_map, Option.map_eq_some_iff] at found
    obtain ⟨k, old, rfl⟩ := found
    split
    · exact convenes
    · exact h u k old
  rcases park_nudged w t fs wait with eq | nudges
  · exact eq ▸ yielded
  · have cleared : ((w.yield t fs wait).clearCancel t).Meeting :=
      yielded.mono (.modify _ t fun _ => .inr ⟨rfl, rfl⟩)
    exact cleared.mono nudges.convened

theorem Meeting.land (h : w.Meeting) (t : TaskId) (convenes : l.Convenes) : (w.land t l).Meeting := by
  cases l with
  | go => exact h
  | park fs wait => exact h.park t fs convenes
  | turn fs => exact h.park t fs nofun
  | timed fs wait n => exact Meeting.park (w := w.setAlarm t n) h t fs convenes
  | finish r =>
    obtain ⟨f, ends, eq⟩ := finish_eq w t r
    rw [World.land, eq]
    exact h.mono (.modify _ t fun k => .inl (by rw [(ends k).2.2.1]; trivial))

/-! ### Landings -/

theorem Killed.convenes {p : ProcessId} {why : KillReason} (h : Killed p why fs l) : l.Convenes := by
  cases h with
  | timed => exact nofun
  | timedOut | cancelled | turn => trivial

theorem Acted.convenes {j : Nat} {u : Update} {todo : List Action} (h : Acted j u todo fs l) : l.Convenes := by
  cases h with
  | timed => exact nofun
  | through | fails | turn | edits | closes | asks | skips => trivial

theorem Told.convenes {u : Update} {js : List Nat} (h : Told w u fs js l) : l.Convenes := by
  cases h with
  | script _ _ acted => exact acted.convenes
  | through | stale | clients | nobody => trivial

theorem waits_convenes {op : Op} {pushed : List Frame} {wait : Wait} (h : op.Waits pushed wait) :
    Convenes (pushed ++ fs) wait := by
  cases h with
  | waitIdle | together => exact fun _ _ => ⟨_, _, rfl, trivial⟩
  | converse | compile => exact nofun

theorem Next.convenes (h : Next w t fs s l ks) : l.Convenes := by
  cases h with
  | turn _ h =>
    cases h with
    | begins h =>
      cases h with
      | waits h => exact waits_convenes h
      | timed | limited => exact nofun
      | opens | turn | answers => trivial
    | waits _ h =>
      cases h with
      | idling => exact fun _ _ => ⟨_, _, rfl, trivial⟩
      | serving | receiving => exact nofun
    | told _ _ h => exact h.convenes
    | acted h => exact h.convenes
    | killed h | reaped h | lost _ _ h | killedNow _ h => exact h.convenes
    | late | hurried => exact nofun
    | done | opens | pops | untold | failed | stopped | ran | waited | heeded | unreaped | faulted => trivial
  | closes h =>
    cases h with
    | waits => exact fun _ _ => ⟨_, _, rfl, trivial⟩
    | through => trivial
  | rests h =>
    rcases h with rfl | ⟨n, rfl⟩
    · trivial
    · exact nofun
  | quieted h =>
    rcases h with ⟨-, rfl⟩ | ⟨-, rfl | rfl⟩
    · trivial
    · exact nofun
    · trivial
  | called h =>
    rcases h with ⟨-, rfl⟩ | ⟨-, rfl⟩
    · trivial
    · trivial
  | edits | misnamed | abandons | leaves | settles | drops | lets | breaks => trivial

/-! ### Runs -/

theorem Sane.apply_meeting (h : w.Sane) (meeting : w.Meeting) (i : Input) : (w.apply i).Meeting := by
  have happens := w.apply_happens i
  generalize w.apply i = v at *
  cases happens with
  | @moves t fs s running =>
    obtain ⟨x, l, deeds, next, eq⟩ := h.reaches running
    rw [eq]
    exact (meeting.mono deeds.convened).land t next.convenes
  | @resumes t rest =>
    rcases resume_cases { w with queue := rest } t with same | ⟨k, -, -, eq⟩
    · rw [same]
      exact meeting
    · rw [eq]
      exact meeting.mono (.modify _ _ fun _ => .inl trivial)
  | forgets | subscribes => exact meeting
  | launches => exact meeting.mono (.append _ trivial)
  | stirs stirred => exact meeting.mono stirred.convened

/-- A task that waits for a group has a closing, a wait for a document to be idle or a collecting on top. -/
theorem run_meeting (new : w.IsNew) {inputs : List Input} (allowed : ∀ i ∈ inputs, i.IsPublic) :
    (w.run inputs).Meeting := by
  have nobody : w.Meeting := by
    intro u k found
    simp [new.tasks] at found
  have kept : ∀ (ms : List Mark) (v : World) (i : Input), Flight ms (w.bench none) v ∧ v.Meeting → i.IsPublic →
      Flight (ms ++ v.marks i) (w.bench none) (v.apply i) ∧ (v.apply i).Meeting :=
    fun _ _ i h given => ⟨h.1.apply given, h.1.sane.apply_meeting h.2 i⟩
  exact (run_induct (I := fun ms v => Flight ms (w.bench none) v ∧ v.Meeting) kept ⟨new.flight, nobody⟩ inputs allowed).2

end
end World
end InkPreview.Live
