import InkPreview.Live.Run
import InkPreview.Proofs.Deduplication
import Mathlib.Order.WellFounded
import Mathlib.Data.List.Basic
/-!
Parts of an editor. An inlay says where the tasks, slots, groups, processes and pages of a smaller editor stand in a
larger one; `via` carries over whatever refers to them by their numbers.
-/
namespace InkPreview.Live

/-! ### Numbers in two halves -/

/-- Two ways of counting that go through all numbers between them, each in order and none twice. -/
structure Halves (p q : Nat → Nat) : Prop where
  left : StrictMono p
  right : StrictMono q
  apart (i j : Nat) : p i ≠ q j
  cover (n : Nat) : (∃ i, p i = n) ∨ ∃ j, q j = n

theorem Halves.symm {p q : Nat → Nat} (h : Halves p q) : Halves q p :=
  ⟨h.right, h.left, fun i j => (h.apart j i).symm, fun n => (h.cover n).symm⟩

/-- The entries of `ys`, carried over by `g`, stand in `xs` at the places that `p` gives. -/
def Stands {α : Type} (p : Nat → Nat) (g : α → α) (xs ys : List α) : Prop := ∀ i, xs[p i]? = (ys[i]?).map g

namespace Stands
variable {α : Type} {p : Nat → Nat} {g : α → α} {xs ys : List α}

theorem lt_iff (h : Stands p g xs ys) (i : Nat) : p i < xs.length ↔ i < ys.length := by
  have same := congrArg Option.isNone (h i)
  rw [Option.isNone_map] at same
  have at_xs : xs[p i]?.isNone = true ↔ xs.length ≤ p i := by simp
  have at_ys : ys[i]?.isNone = true ↔ ys.length ≤ i := by simp
  rw [same, at_ys] at at_xs
  omega

/-- A new entry of this half comes after those that are there. -/
theorem next (h : Stands p g xs ys) (grows : StrictMono p) (here : ∃ i, p i = xs.length) : p ys.length = xs.length := by
  obtain ⟨i, at_i⟩ := here
  have late : ¬ i < ys.length := by simp [← h.lt_iff, at_i]
  have first : ¬ ys.length < i := fun less => by
    have below := grows less
    have there := (h.lt_iff ys.length).1 (at_i ▸ below)
    exact Nat.lt_irrefl _ there
  obtain rfl : i = ys.length := by omega
  exact at_i

theorem modify (h : Stands p g xs ys) (grows : StrictMono p) (i : Nat) (c c' : α → α) (same : ∀ a, g (c a) = c' (g a)) :
    Stands p g (xs.modify (p i) c') (ys.modify i c) := by
  intro j
  rw [List.getElem?_modify, List.getElem?_modify, h j]
  have here : p i = p j ↔ i = j := grows.injective.eq_iff
  cases ys[j]? with
  | none => rfl
  | some a => by_cases eq : i = j <;> simp [eq, here, same]

theorem modify_other (h : Stands p g xs ys) {n : Nat} (other : ∀ i, p i ≠ n) (c : α → α) :
    Stands p g (xs.modify n c) ys := by
  intro j
  rw [List.getElem?_modify, h j]
  cases ys[j]? <;> simp [(other j).symm]

theorem append (h : Stands p g xs ys) (grows : StrictMono p) (here : ∃ i, p i = xs.length) (a : α) :
    Stands p g (xs ++ [g a]) (ys ++ [a]) := by
  have next := h.next grows here
  intro j
  rcases Nat.lt_trichotomy j ys.length with less | rfl | more
  · rw [List.getElem?_append_left less, List.getElem?_append_left ((h.lt_iff j).2 less), h j]
  · simp [next]
  · have past := grows more
    rw [List.getElem?_eq_none (by simp; omega), List.getElem?_eq_none (by simp; omega)]
    rfl

theorem append_other (h : Stands p g xs ys) (other : ∀ i, p i ≠ xs.length) (a : α) : Stands p g (xs ++ [a]) ys := by
  intro j
  rcases Nat.lt_or_ge (p j) xs.length with less | more
  · rw [List.getElem?_append_left less, h j]
  · have past := other j
    have none := h j
    rw [List.getElem?_eq_none more] at none
    rw [List.getElem?_eq_none (by simp; omega), none]

theorem length_le (h : Stands p g xs ys) (grows : StrictMono p) : ys.length ≤ xs.length := by
  cases length : ys.length with
  | zero => exact Nat.zero_le _
  | succ n =>
    have last : p n < xs.length := (h.lt_iff n).2 (by omega)
    exact Nat.lt_of_le_of_lt (grows.le_apply (x := n)) last

end Stands

/-! ### Galleries -/

/-- In `g` the gallery `h` has the pages that `p` gives, and the previews of the names that are `mine`. -/
structure Holds (p : Nat → Nat) (mine : String → Prop) (g h : Gallery) : Prop where
  tag : h.tag = g.tag
  pages : ∀ i, p i < g.next ↔ i < h.next
  previews : ∀ name, mine name → g.previews.find? name = (h.previews.find? name).map (·.renumber p)

namespace Holds
variable {p : Nat → Nat} {mine : String → Prop} {g h : Gallery} {doc : String}

theorem artifact? (m : Holds p mine g h) (here : mine doc) :
    g.previews.artifact? doc = (h.previews.artifact? doc).map (·.renumber p) := by
  rw [Previews.artifact?, Previews.artifact?, m.previews doc here]
  cases h.previews.find? doc <;> rfl

theorem isUnchanged (m : Holds p mine g h) (here : mine doc) (content : String) :
    g.previews.isUnchanged doc content = h.previews.isUnchanged doc content := by
  rw [Previews.isUnchanged, Previews.isUnchanged, m.previews doc here]
  cases h.previews.find? doc <;> simp [Preview.renumber]

/-- The next page of the whole, if it is this part's, is the part's next page. -/
theorem next (m : Holds p mine g h) (grows : StrictMono p) (room : ∃ i, p i = g.next) : p h.next = g.next := by
  obtain ⟨i, at_i⟩ := room
  have late : ¬ i < h.next := by simp [← m.pages, at_i]
  have first : ¬ h.next < i := fun less => Nat.lt_irrefl _ ((m.pages h.next).1 (at_i ▸ grows less))
  obtain rfl : i = h.next := by omega
  exact at_i

theorem more (m : Holds p mine g h) (grows : StrictMono p) (room : ∃ i, p i = g.next) {xs ys : Previews}
    (previews : ∀ name, mine name → xs.find? name = (ys.find? name).map (·.renumber p)) :
    Holds p mine { g with previews := xs, next := g.next + 1 } { h with previews := ys, next := h.next + 1 } where
  tag := m.tag
  pages i := by
    have next := m.next grows room
    have same : p i ≤ p h.next ↔ i ≤ h.next := grows.le_iff_le
    rw [Nat.lt_succ_iff, Nat.lt_succ_iff, ← same, next]
  previews := previews

/-- Rendering a page of the part. -/
theorem render (m : Holds p mine g h) (grows : StrictMono p) (here : mine doc) (mode : Mode)
    (room : (g.render doc mode).2.2.next ≠ g.next → ∃ i, p i = g.next) :
    (g.render doc mode).1 = (h.render doc mode).1.renumber p ∧ (g.render doc mode).2.1 = (h.render doc mode).2.1 ∧
      Holds p mine (g.render doc mode).2.2 (h.render doc mode).2.2 := by
  have fresh : ∀ shown, (∃ i, p i = g.next) → g.fresh doc mode shown = (h.fresh doc mode shown).renumber p := by
    intro shown room
    simp [Gallery.fresh, Gallery.build, Artifact.renumber, m.tag, m.next grows room]
  by_cases pending : mode.kind = .pending
  · cases found : h.previews.artifact? doc with
    | none =>
      have missing : g.previews.artifact? doc = none := by rw [m.artifact? here, found]; rfl
      rw [Gallery.render_placeholder pending missing] at room ⊢
      rw [Gallery.render_placeholder pending found]
      have room := room (Nat.succ_ne_self _)
      exact ⟨fresh .empty room, rfl, m.more grows room m.previews⟩
    | some a =>
      rw [Gallery.render_kept pending found, Gallery.render_kept pending (by rw [m.artifact? here, found]; rfl)]
      exact ⟨rfl, rfl, m⟩
  · cases unchanged : h.previews.isUnchanged doc mode.payload with
    | false =>
      have changed : g.previews.isUnchanged doc mode.payload = false := by rw [m.isUnchanged here, unchanged]
      rw [Gallery.render_built pending changed] at room ⊢
      rw [Gallery.render_built pending unchanged]
      have room := room (Nat.succ_ne_self _)
      refine ⟨fresh mode room, rfl, m.more grows room fun name mem => ?_⟩
      by_cases same : doc = name
      · subst same
        rw [Previews.find?_record_self, Previews.find?_record_self, m.previews doc here, fresh mode room]
        cases h.previews.find? doc <;> rfl
      · rw [Previews.find?_record_other _ same, Previews.find?_record_other _ same, m.previews name mem]
    | true =>
      obtain ⟨a, found⟩ := Previews.artifact?_of_isUnchanged unchanged
      rw [Gallery.render_reused pending unchanged found,
        Gallery.render_reused pending (by rw [m.isUnchanged here, unchanged]) (by rw [m.artifact? here, found]; rfl)]
      exact ⟨rfl, rfl, m⟩

/-- Rendering a page of another part. -/
theorem render_other (m : Holds p mine g h) (other : ¬ mine doc) (mode : Mode)
    (room : (g.render doc mode).2.2.next ≠ g.next → ∀ i, p i ≠ g.next) : Holds p mine (g.render doc mode).2.2 h where
  tag := by
    rw [m.tag]
    exact (Gallery.tag_answer g ⟨doc, .render mode⟩).symm
  pages i := by
    have next : (g.render doc mode).2.2.next = g.next ∨ (g.render doc mode).2.2.next = g.next + 1 := by
      unfold Gallery.render
      split
      · split
        · exact .inl rfl
        · exact .inr rfl
      · dsimp only
        split
        · exact .inl rfl
        · exact .inr rfl
    rw [← m.pages]
    rcases next with same | more
    · rw [same]
    · have apart := room (by omega) i
      omega
  previews name mem := by
    have apart : doc ≠ name := fun same => other (same ▸ mem)
    rw [Gallery.find?_render_other g apart, m.previews name mem]

theorem discard (m : Holds p mine g h) (doc : String) : Holds p mine (g.discard doc) (h.discard doc) where
  tag := m.tag
  pages := m.pages
  previews name mem := by
    rw [Gallery.discard, Gallery.discard]
    by_cases same : doc = name
    · subst same
      rw [Previews.find?_remove, Previews.find?_remove]
      rfl
    · rw [Previews.find?_remove_other _ same, Previews.find?_remove_other _ same, m.previews name mem]

theorem discard_other (m : Holds p mine g h) (other : ¬ mine doc) : Holds p mine (g.discard doc) h where
  tag := m.tag
  pages := m.pages
  previews name mem := by
    have apart : doc ≠ name := fun same => other (same ▸ mem)
    rw [Gallery.discard, Previews.find?_remove_other _ apart, m.previews name mem]

end Holds

/-! ### Inlays -/

/-- Where the numbers of a part of an editor stand in the whole, and the documents of the part. -/
structure Inlay where
  task : TaskId → TaskId
  slot : SlotId → SlotId
  group : GroupId → GroupId
  process : ProcessId → ProcessId
  page : Nat → Nat
  /-- The calls of a subscriber that are for documents of the part. -/
  call : Nat → Nat → Nat
  docs : DocId → Prop
  /-- Whether what names no document is the part's. -/
  loose : Prop

/-- Two parts that make up the whole. -/
structure Inlay.Apart (e f : Inlay) : Prop where
  task : Halves e.task f.task
  slot : Halves e.slot f.slot
  group : Halves e.group f.group
  process : Halves e.process f.process
  page : Halves e.page f.page
  call (i : Nat) : Halves (e.call i) (f.call i)
  docs (d : DocId) : e.docs d ↔ ¬ f.docs d
  same {d d' : DocId} (h : d.same d') : e.docs d ↔ e.docs d'
  loose : e.loose ↔ ¬ f.loose

theorem Inlay.Apart.symm {e f : Inlay} (h : e.Apart f) : f.Apart e where
  task := h.task.symm
  slot := h.slot.symm
  group := h.group.symm
  process := h.process.symm
  page := h.page.symm
  call i := (h.call i).symm
  docs d := by rw [h.docs d, not_not]
  same {d d'} same := by
    have here := h.same same
    have at_d := h.docs d
    have at_d' := h.docs d'
    tauto
  loose := by rw [h.loose, not_not]

def Update.via (e : Inlay) (u : Update) : Update :=
  { u with slot := e.slot u.slot, artifact := u.artifact.renumber e.page }

def Request.via (e : Inlay) (r : Request) : Request := { r with slot := e.slot r.slot }

def Frame.via (e : Inlay) : Frame → Frame
  | .notifying u rest => .notifying (u.via e) rest
  | .acting i u rest => .acting i (u.via e) rest
  | .quiet r => .quiet (r.via e)
  | .queueing r => .queueing (r.via e)
  | .holding r => .holding (r.via e)
  | .running p => .running (e.process p)
  | .limited p t => .limited (e.process p) (e.task t)
  | .stoppingFollower p why => .stoppingFollower (e.process p) why
  | .following p => .following (e.process p)
  | .reaping p why => .reaping (e.process p) why
  | .idling s => .idling (e.slot s)
  | f => f

def Op.via (e : Inlay) : Op → Op
  | .background r => .background (r.via e)
  | .follow p => .follow (e.process p)
  | op => op

theorem Op.via_background (e : Inlay) (r : Request) : Op.background (r.via e) = (Op.background r).via e := rfl

theorem Op.via_follow (e : Inlay) (p : ProcessId) : Op.follow (e.process p) = (Op.follow p).via e := rfl

def Signal.via (e : Inlay) : Signal → Signal
  | .start op => .start (op.via e)
  | s => s

def Wait.via (e : Inlay) : Wait → Wait
  | .lock s => .lock (e.slot s)
  | .group g => .group (e.group g)
  | .follower t => .follower (e.task t)
  | w => w

def Job.via (e : Inlay) : Job → Job
  | .resume t => .resume (e.task t)
  | .forget s t => .forget (e.slot s) (e.task t)
  | .joined g => .joined (e.group g)
  | .report t f => .report (e.task t) (e.task f)

def Task.via (e : Inlay) (k : Task) : Task :=
  { k with frames := k.frames.map (·.via e), signal := k.signal.via e, wait := k.wait.via e,
           watchers := k.watchers.map (·.via e) }

def Group.via (e : Inlay) (g : Group) : Group := { g with members := g.members.map e.task, waiter := e.task g.waiter }

def Process.via (e : Inlay) (p : Process) : Process := { p with owner := e.task p.owner }

def Lock.via (e : Inlay) (l : Lock) : Lock := { l with queue := l.queue.map fun p => (e.task p.1, p.2) }

def Slot.via (e : Inlay) (k : Slot) : Slot :=
  { k with pending := k.pending.map e.task, lock := k.lock.via e, tasks := k.tasks.map e.task,
           lastUpdate := k.lastUpdate.map (·.via e) }

def Alarm.via (e : Inlay) (a : Alarm) : Alarm := { a with task := e.task a.task }

/-- A subscriber does at its calls what it does at those that they stand for. -/
def Subscriber.via (p : Nat → Nat) : Subscriber → Subscriber
  | .script acts => .script fun n => acts (p (n - 1) + 1)
  | .clients => .clients

end InkPreview.Live
