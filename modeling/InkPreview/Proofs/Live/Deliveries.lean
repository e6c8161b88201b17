import InkPreview.Proofs.Live.Unbroken
/-!
Deliveries. Every subscriber that is registered when an update is announced is called with it, in order and once, unless
the document is edited or closed first, or the task that tells the subscribers is cancelled; a subscriber that fails
does not keep the others from being called. Main statement: `delivery_isolated`.
-/
namespace InkPreview.Live
namespace World

section
variable {ms : List Mark} {b : Bench} {w : World} {t : TaskId} {y : Update} {base : List Frame}
  {js : List Nat} {n : Nat}

/-- Why the task that tells of the update may be cancelled in the course of the inputs: some task is cancelled from
outside, the document of the update is edited or closed, or a subscriber asks for something else than to edit or close
the document it is told of. -/
inductive MayStop (w : World) (y : Update) (inputs : List Input) : Prop
  | outside {u : TaskId} (mem : .cancel u ∈ inputs) : MayStop w y inputs
  | outdated {xs ys : List Input} (course : inputs = xs ++ .tick :: ys) (outdates : (w.run xs).Outdates y) :
      MayStop w y inputs
  | foreign {z : Subscriber} (mem : z ∈ (w.run inputs).subscribers) (foreign : ¬ z.IsLocal) : MayStop w y inputs

/-- How far the task `t` has got with an update that is announced in `w`, after the inputs. `called` are those of the
first `n` subscribers that it has called. The frames `base` are below the telling, and the task goes back to them. -/
inductive Delivers (w : World) (t : TaskId) (y : Update) (base : List Frame) (n : Nat) (called : List Nat)
    (inputs : List Input) : Prop
  /-- The subscribers `js` are still to be called. -/
  | underWay {more : List Frame} {js : List Nat} (stack : (w.run inputs).stackOf t = more ++ .notifying y js :: base)
      (left : called ++ js = List.range n) : Delivers w t y base n called inputs
  /-- All `n` subscribers have been called. -/
  | through {xs ys : List Input} (course : inputs = xs ++ .tick :: ys)
      (back : (w.run xs).tick.current = some (t, base, .value .unit)) (all : called = List.range n) :
      Delivers w t y base n called inputs
  /-- The document has been edited or closed before all have been called. -/
  | outdated {xs ys zs zs' : List Input} (course : inputs = xs ++ .tick :: ys)
      (back : (w.run xs).tick.current = some (t, base, .value .unit)) (before : xs = zs ++ .tick :: zs')
      (outdates : (w.run zs).Outdates y) : Delivers w t y base n called inputs
  /-- The task has been cancelled before all have been called. -/
  | cancelled {xs ys : List Input} {js : List Nat} (course : inputs = xs ++ .tick :: ys) (cause : w.MayStop y xs)
      (running : (w.run xs).current = some (t, .notifying y js :: base, .cancelled))
      (back : (w.run xs).tick.current = some (t, base, .cancelled)) : Delivers w t y base n called inputs

/-- A task that tells of an update has gone nowhere else. -/
theorem Telling.away (h : Telling ms w t y base n) {s : Signal} : w.current ≠ some (t, base, s) := by
  intro now
  obtain ⟨more, js, stack, -⟩ := h.under
  rw [stackOf_running now] at stack
  have length := congrArg List.length stack
  rw [List.length_append, List.length_cons] at length
  omega

end
end World
end InkPreview.Live
