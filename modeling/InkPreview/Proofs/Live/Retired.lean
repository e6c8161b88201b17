import InkPreview.Proofs.Live.Carriers
import InkPreview.Proofs.Live.Interruption
/-!
Retired tasks, which have no request to work for, or none any more. What a task does without a request gives it
none. Main statement: `Flight.apply_retired`.
-/
namespace InkPreview.Live

/-- The task is at work for no edit. -/
def Post.IsRetired (q : Post) : Prop := ∀ r, ¬ q.Carries r

section
variable {ms : List Mark} {b : Bench} {t u : TaskId} {fs : List Frame} {s : Signal} {q : Post}

theorem Post.isRetired_plain {wait : Wait} (plain : Plain fs) (other : ∀ r, s ≠ .start (.background r)) :
    (⟨fs, s, wait⟩ : Post).IsRetired := fun r carries => request?_plain plain other r carries.request

theorem Post.isRetired_ended (ended : q.wait = .ended) : q.IsRetired := fun _ carries => carries.out ended

/-- A task that is retired has ended, or has no request in hand. -/
theorem Stage.retired (h : Stage ms b t q) (retired : q.IsRetired) :
    q.wait = .ended ∨ Plain q.frames ∧ ∀ r, q.signal ≠ .start (.background r) := by
  have carried : ∀ (pre : List Frame) {f : Frame} {s : Signal} {wait : Wait} {r : Request}, f.request? = some r →
      wait ≠ .ended → ¬ (⟨pre ++ [f], s, wait⟩ : Post).IsRetired := fun _ _ _ _ _ of_f out retired =>
    retired _ ⟨request?_above.trans of_f, out⟩
  have up : ∀ {wait : Wait}, wait.IsUp → wait ≠ .ended := by
    rintro _ (rfl | rfl)
    · nofun
    · nofun
  cases h with
  | plain free other => exact .inr ⟨free, other⟩
  | finished => exact .inl rfl
  | @fresh r _ _ _ awake => exact absurd ⟨rfl, up awake⟩ (retired r)
  | quiet => exact absurd retired (carried [] rfl nofun)
  | queueing => exact absurd retired (carried [] rfl nofun)
  | asked => exact absurd retired (carried [] rfl nofun)
  | rested _ _ _ awake => exact absurd retired (carried [] rfl (up awake))
  | dropped awake => exact absurd retired (carried [] rfl (up awake))
  | called _ _ _ awake => exact absurd retired (carried [] rfl (up awake))
  | leaving awake => exact absurd retired (carried [] rfl (up awake))
  | holding _ _ _ loose => exact absurd retired (carried _ rfl loose.1)

namespace World
variable {w : World} {l : Landing} {ks : List Slot}

/-- Without a request a task takes no step that gives it one. -/
theorem Next.retires (h : Next w t fs s l ks) (subscribers : ∀ s ∈ w.subscribers, s.IsPublic)
    (fits : AllFit w.seats fs) (plain : Plain fs) (other : ∀ r, s ≠ .start (.background r)) :
    Plain l.frames ∧ ∀ fs' r, l ≠ .go fs' (.start (.background r)) := by
  have below : ∀ {f : Frame} {gs : List Frame}, Plain (f :: gs) → Plain gs :=
    fun plain g mem => plain g (List.mem_cons_of_mem _ mem)
  cases h with
  | turn _ turn =>
    have asked : ∀ i u todo, .acting i u todo ∈ fs → ∀ op, .ask op ∈ todo → op.IsPublic :=
      fun i u todo mem op asks => (fits _ mem).2 _ asks
    obtain ⟨frames, given⟩ := turn.keeps (kept_plain w.subscribers) subscribers asked plain
    refine ⟨frames, ?_⟩
    rintro fs' r rfl
    rcases given with given | ⟨p, eq⟩
    · cases given
    · cases eq
  | edits => exact ⟨all_cons rfl (all_cons rfl plain), fun _ _ => go_ends trivial⟩
  | misnamed => exact ⟨plain, fun _ _ => go_ends trivial⟩
  | closes h =>
    cases h with
    | through hs => exact ⟨plain, fun _ _ => go_ends hs⟩
    | waits => exact ⟨all_cons rfl plain, nofun⟩
  | @rests _ r => exact absurd rfl (other r)
  | abandons | quieted | called | leaves | settles | drops | lets => cases plain _ List.mem_cons_self
  | breaks h =>
    have none := plain _ List.mem_cons_self
    rcases h with rfl | rfl
    · cases none
    · cases none

/-- What a step of a retired task leads to. -/
theorem Flight.move_retired (h : Flight ms b w) (running : w.current = some (t, fs, s)) (plain : Plain fs)
    (other : ∀ r, s ≠ .start (.background r)) : ∃ q, w.tick.post? t = some q ∧ q.IsRetired := by
  have next : Flight (ms ++ w.marks .tick) b w.tick := h.apply (i := .tick) trivial
  obtain ⟨x, l, deeds, landing, eq⟩ := h.sane.reaches running
  obtain ⟨frames, begins⟩ := landing.retires h.sane.subscribers (h.sane.running t fs s running).1 plain other
  have there : t < x.tasks.length := Nat.lt_of_lt_of_le (h.there running) deeds.grown.length
  rw [tick_running running, eq] at next ⊢
  obtain ⟨⟨fs', s', wait⟩, found, same, signal⟩ := land_at next there
  obtain rfl : fs' = l.frames := same
  refine ⟨_, found, ?_⟩
  rcases signal with calm | ceased | ⟨gs, x, landed, same⟩
  · refine Post.isRetired_plain frames ?_
    rintro r rfl
    exact calm
  · exact Post.isRetired_ended ceased
  · refine Post.isRetired_plain frames ?_
    rintro r rfl
    exact begins gs r (landed.trans (by rw [← same]))

/-- A task that is retired remains so. -/
theorem Flight.apply_retired (h : Flight ms b w) {i : Input} (allowed : i.IsPublic) (found : w.post? u = some q)
    (retired : q.IsRetired) : ∃ q', (w.apply i).post? u = some q' ∧ q'.IsRetired := by
  by_cases steps : w.Steps i u
  · obtain ⟨rfl, fs, s, running⟩ := steps
    obtain rfl := Option.some.inj ((h.post?_running running).symm.trans found)
    obtain ended | ⟨plain, other⟩ := (h.stage found).retired retired
    · cases ended
    · exact h.move_retired running plain other
  · obtain ⟨q', found', rfl | ⟨-, frames, signal⟩⟩ := h.apply_post allowed found steps
    · exact ⟨q', found', retired⟩
    · refine ⟨q', found', ?_⟩
      rcases (h.stage found).retired retired with ended | ⟨plain, other⟩
      · exact Post.isRetired_ended (h.post_ended allowed found ended found')
      · obtain ⟨fs', s', wait'⟩ := q'
        obtain rfl : fs' = q.frames := frames
        refine Post.isRetired_plain plain ?_
        rintro r rfl
        rcases signal with same | calm
        · exact other r same.symm
        · exact calm

end World
end
end InkPreview.Live
