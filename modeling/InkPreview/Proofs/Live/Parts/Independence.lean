import InkPreview.Proofs.Live.Parts.Growth
import InkPreview.Proofs.Live.Parts.Shares
import Mathlib.Data.Nat.Nth
/-!
Independence. However the documents are divided, what happens for those of one part is what would happen if the others
were not there, as long as nobody asks for something that concerns all documents: every run is two runs laid side by
side, one for each part. Main statement: `documents_independent`.
-/
namespace InkPreview.Live

/-- For every number that has been taken up, whether it is the first part's. -/
abbrev Sides := Series → List Bool

namespace Sides
variable {S : Sides} {k : Series} {docs : DocId → Prop}

/-- Whether a number is the first part's. Those that have not been taken up are shared out in turn. -/
def side (S : Sides) (k : Series) (n : Nat) : Bool := ((S k)[n]?).getD (n % 2 == 0)

/-- All new numbers below the extent go to one part. -/
def extend (S : Sides) (a : Extent) (first : Bool) : Sides :=
  fun k => S k ++ List.replicate (a.of k - (S k).length) first

/-- The numbers of a part, in order. -/
noncomputable def place (S : Sides) (first : Bool) (k : Series) : Nat → Nat := Nat.nth fun n => S.side k n = first

/-- A part, laid out by the sides of the numbers. -/
noncomputable def inlay (S : Sides) (docs : DocId → Prop) (first : Bool) : Inlay where
  task := S.place first .task
  slot := S.place first .slot
  group := S.place first .group
  process := S.place first .process
  page := S.place first .page
  call i := S.place first (.call i)
  docs := match first with
    | true => docs
    | false => fun d => ¬ docs d
  loose := first = true

theorem infinite (S : Sides) (k : Series) (first : Bool) : (Set.ofPred fun n => S.side k n = first).Infinite := by
  refine Set.infinite_of_forall_exists_gt fun a => ?_
  let m := a + (S k).length + 1
  have later : ∀ n, (S k).length ≤ n → S.side k n = (n % 2 == 0) := fun n late => by
    rw [side, List.getElem?_eq_none late]
    rfl
  cases first with
  | true =>
    refine ⟨2 * m, ?_, by omega⟩
    show S.side k (2 * m) = true
    rw [later _ (by omega)]
    simp
  | false =>
    refine ⟨2 * m + 1, ?_, by omega⟩
    show S.side k (2 * m + 1) = false
    rw [later _ (by omega)]
    simp

theorem side_place (S : Sides) (first : Bool) (k : Series) (i : Nat) : S.side k (S.place first k i) = first :=
  Nat.nth_mem_of_infinite (S.infinite k first) i

theorem exists_place {first : Bool} {n : Nat} (h : S.side k n = first) : ∃ i, S.place first k i = n := by
  have range := Nat.range_nth_of_infinite (S.infinite k first)
  exact (Set.ext_iff.1 range n).2 h

theorem halves (S : Sides) (k : Series) : Halves (S.place true k) (S.place false k) where
  left := Nat.nth_strictMono (S.infinite k true)
  right := Nat.nth_strictMono (S.infinite k false)
  apart i j eq := by
    have one := S.side_place true k i
    rw [eq, S.side_place] at one
    cases one
  cover n := by
    cases side : S.side k n with
    | true => exact .inl (exists_place side)
    | false => exact .inr (exists_place side)

theorem apart (S : Sides) (whole : ∀ d d' : DocId, d.same d' → (docs d ↔ docs d')) :
    (S.inlay docs true).Apart (S.inlay docs false) where
  task := S.halves .task
  slot := S.halves .slot
  group := S.halves .group
  process := S.halves .process
  page := S.halves .page
  call i := S.halves (.call i)
  docs d := by simp [inlay]
  same h := whole _ _ h
  loose := by simp [inlay]

theorem place_inlay (S : Sides) (docs : DocId → Prop) (first : Bool) (k : Series) :
    (S.inlay docs first).place k = S.place first k := by
  cases k <;> rfl

theorem belongs_inlay (S T : Sides) (op : Op) : op.Belongs (S.inlay docs true) ↔ op.Belongs (T.inlay docs true) := by
  cases op <;> exact Iff.rfl

end Sides

namespace World

/-- Whether the first part does what comes next, where it matters. -/
noncomputable def actor (w : World) (docs : DocId → Prop) (S : Sides) : Input → Bool
  | .tick =>
    match w.current with
    | some (t, _, _) => S.side .task t
    | none => true
  | .begin op | .queue op => truth (op.Belongs (S.inlay docs true))
  | _ => true

/-- Whose the numbers are that are taken up along a run. -/
noncomputable def sidesAlong (w : World) (docs : DocId → Prop) (S : Sides) : List Input → Sides
  | [] => S
  | i :: rest => (w.apply i).sidesAlong docs (S.extend (w.apply i).extent (w.actor docs S i)) rest

section
variable {docs : DocId → Prop} {S : Sides} {w v u : World} {i : Input} {k : Series} {n : Nat}

theorem sidesAlong_side (w : World) (docs : DocId → Prop) (S : Sides) (inputs : List Input) (there : n < (S k).length) :
    (w.sidesAlong docs S inputs).side k n = S.side k n := by
  induction inputs generalizing w S with
  | nil => rfl
  | cons i rest ih =>
    rw [sidesAlong, ih _ _ (by simp [Sides.extend]; omega), Sides.side, Sides.side, Sides.extend,
      List.getElem?_append_left there]

/-- The sides of all that has been taken up are known. -/
def Shared (S : Sides) (w : World) : Prop := ∀ k, (S k).length = w.extent.of k

theorem Shared.apply (h : Shared S w) (grows : ∀ k, w.extent.of k ≤ (w.apply i).extent.of k) (first : Bool) :
    Shared (S.extend (w.apply i).extent first) (w.apply i) := by
  intro k
  have more := grows k
  simp only [Sides.extend, List.length_append, List.length_replicate, h k]
  omega

/-- What an input takes up goes to the part that does it. -/
theorem Shared.room (h : Shared S w) (grows : ∀ k, w.extent.of k ≤ (w.apply i).extent.of k)
    (rest : List Input) {first : Bool}
    (acts : w.actor docs S i = first) :
    ((w.sidesAlong docs S (i :: rest)).inlay docs first).Room w.extent (w.apply i).extent := by
  refine .of_places fun k taken => ?_
  have more := grows k
  rw [Sides.place_inlay]
  refine Sides.exists_place ?_
  have there : w.extent.of k < ((S.extend (w.apply i).extent (w.actor docs S i)) k).length := by
    simp only [Sides.extend, List.length_append, List.length_replicate, h k]
    omega
  rw [sidesAlong, sidesAlong_side _ _ _ _ there, Sides.side, Sides.extend,
    List.getElem?_append_right (Nat.le_of_eq (h k)),
    List.getElem?_replicate, if_pos (by rw [h k]; omega), acts]
  rfl

/-- A task that takes up numbers is known. -/
theorem Shared.actor_eq (h : Shared S w) (whole : ∀ d d' : DocId, d.same d' → (docs d ↔ docs d'))
    (there : ∀ t fs x, w.current = some (t, fs, x) → t < w.tasks.length) (rest : List Input) {first : Bool}
    (acts : w.Acts ((w.sidesAlong docs S (i :: rest)).inlay docs first) i) : w.actor docs S i = first := by
  have begins : ∀ op : Op, op.Belongs ((w.sidesAlong docs S (i :: rest)).inlay docs first) →
      truth (op.Belongs (S.inlay docs true)) = first := by
    intro op of
    cases first with
    | true => exact truth_iff.2 ((Sides.belongs_inlay _ _ op).1 of)
    | false =>
      have other : ¬ op.Belongs (S.inlay docs true) := fun mine =>
        ((Sides.apart _ whole).belongs op).1 ((Sides.belongs_inlay _ _ op).1 mine) of
      simp [truth, other]
  cases i with
  | tick =>
    obtain ⟨t, fs, x, running⟩ := acts
    have known := there _ _ _ running
    have here : (w.sidesAlong docs S (.tick :: rest)).side .task (((w.sidesAlong docs S (.tick :: rest)).inlay docs first).task t) =
        first := Sides.side_place _ first .task t
    rw [sidesAlong_side w docs S _ (by rw [h .task]; exact known)] at here
    simpa only [actor, running] using here
  | begin op | queue op => exact begins op acts
  | _ => exact acts.elim

theorem joint_run (whole : ∀ d d' : DocId, d.same d' → (docs d ↔ docs d')) {before after : List Input}
    (shared : Shared S w)
    (flight : ∃ ms b, Flight ms b w) (lone : w.Lone)
    (joint : Joint ((w.sidesAlong docs S (before ++ after)).inlay docs true)
      ((w.sidesAlong docs S (before ++ after)).inlay docs false) w v u)
    (mine : Minded docs v) (theirs : Minded (fun d => ¬ docs d) u) (plain : ∀ i ∈ before, i.IsPlain fun _ => True) :
    Joint ((w.sidesAlong docs S (before ++ after)).inlay docs true) ((w.sidesAlong docs S (before ++ after)).inlay docs false)
      (w.run before) (v.run (w.shares ((w.sidesAlong docs S (before ++ after)).inlay docs true) before))
      (u.run (w.shares ((w.sidesAlong docs S (before ++ after)).inlay docs false) before)) := by
  induction before generalizing w v u S with
  | nil => exact joint
  | cons i rest ih =>
    obtain ⟨ms, b, flight⟩ := flight
    have asked := plain i List.mem_cons_self
    have grows := flight.apply_extent asked.isPublic
    have there : ∀ t fs x, w.current = some (t, fs, x) → t < w.tasks.length :=
      fun t fs x running => flight.there running
    have next := joint.apply flight.sane.distinct lone mine theirs asked
      (fun acts => shared.room grows _ (shared.actor_eq whole there _ acts))
      (fun acts => shared.room grows _ (shared.actor_eq whole there _ acts))
    simp only [shares, run_append]
    exact ih (shared.apply grows _) ⟨_, b, flight.apply asked.isPublic⟩ (flight.apply_lone lone i) next
      (mine.run (share_plain w _ asked)) (theirs.run (share_plain w _ asked)) fun j mem => plain j
      (List.mem_cons_of_mem i mem)

theorem shares_append (w : World) (e : Inlay) (xs ys : List Input) :
    w.shares e (xs ++ ys) = w.shares e xs ++ (w.run xs).shares e ys := by
  induction xs generalizing w with
  | nil => rfl
  | cons i rest ih =>
    rw [List.cons_append, shares, ih, shares, List.append_assoc]
    rfl

/-! ### The parts of a new editor -/

/-- The editor of a part at the start. Its subscribers do at their calls what they do in the whole
at those calls that are for documents of the part. -/
def partOf (w : World) (e : Inlay) : World :=
  { w with subscribers := w.subscribers.mapIdx fun i y => y.via (e.call i) }

theorem inlaid_start (setup : Setup) (finder : Finder) (tag : String) (subscribers : List Subscriber) (e : Inlay) :
    Inlaid e (start setup finder (.new tag) subscribers) ((start setup finder (.new tag) subscribers).partOf e) where
  setup := rfl
  finder := rfl
  clock := rfl
  subscribers i := by simp [start, partOf]
  called := by simp [start, partOf]
  calls i n := by
    have never : ∀ j : Nat, World.timesCalled (start setup finder (.new tag) subscribers) j = 0 := by
      intro j
      simp only [timesCalled, start, List.getElem?_map]
      cases subscribers[j]? <;> rfl
    rw [never i]
    show _ ↔ n < World.timesCalled (start setup finder (.new tag) subscribers) i
    rw [never i]
    simp
  slots _ := rfl
  tasks _ := rfl
  groups _ := rfl
  processes _ := rfl
  alarms := rfl
  queue := rfl
  told := rfl
  gallery := ⟨rfl, fun i => by simp [start, partOf, Gallery.new], fun _ _ => rfl⟩
  opened s k found := by simp [start, partOf] at found

theorem IsNew.minded (new : w.IsNew) (own : ∀ y ∈ w.subscribers, y.IsOwn) (docs : DocId → Prop) : Minded docs w := by
  refine ⟨⟨_, _, new.flight⟩, own, ?_, ?_⟩
  · intro t k found
    simp [new.tasks] at found
  · intro t fs x running
    simp [new.current] at running

theorem isNew_partOf {e : Inlay} (new : w.IsNew) (own : ∀ y ∈ w.subscribers, y.IsOwn) :
    (w.partOf e).IsNew ∧ ∀ y ∈ (w.partOf e).subscribers, y.IsOwn := by
  have mine : ∀ y ∈ (w.partOf e).subscribers, y.IsOwn := by
    intro y mem
    obtain ⟨i, there, rfl⟩ := List.mem_mapIdx.1 mem
    exact isOwn_via (own _ (List.getElem_mem there)) _
  exact ⟨⟨new.slots, new.tasks, new.groups, new.processes, new.alarms, new.queue, new.current, by
    simpa [partOf] using new.calls, fun y mem => (mine y mem).isPublic⟩, mine⟩

/-! ### Main result -/

/-- From `w` to `v` nothing has changed about some documents: neither their slots and previews, nor the tasks that work
for them, their timers and their turns. -/
structure Unaffected (docs : DocId → Prop) (w v : World) : Prop where
  slots : ∀ (s : SlotId) k, docs k.doc → (v.slots[s]? = some k ↔ w.slots[s]? = some k)
  previews : ∀ name, docs (.name name) → v.gallery.previews.find? name = w.gallery.previews.find? name
  tasks : ∀ (s : SlotId) k, w.slots[s]? = some k → docs k.doc → ∀ t ∈ k.tasks, v.tasks[t]? = w.tasks[t]? ∧
    v.alarms.filter (·.task == t) = w.alarms.filter (·.task == t) ∧ (.resume t ∈ v.queue ↔ .resume t ∈ w.queue)

theorem Inlaid.alarms_of {e : Inlay} (h : Inlaid e w v) (t : TaskId) :
    w.alarms.filter (·.task == e.task t) = (v.alarms.map (Alarm.via e)).filter (·.task == e.task t) := by
  rw [← h.alarms, List.filter_filter]
  refine List.filter_congr fun a _ => ?_
  by_cases here : a.task = e.task t
  · simp [here]
  · simp [here]

theorem Inlaid.resumes_of {e : Inlay} (h : Inlaid e w v) (t : TaskId) :
    .resume (e.task t) ∈ w.queue ↔ .resume (e.task t) ∈ v.queue.map (Job.via e) := by
  rw [← h.queue, List.mem_filter]
  exact ⟨fun mem => ⟨mem, among_self _ _⟩, And.left⟩

theorem Joint.unaffected {e f : Inlay} {w w' v u u' : World} (h : Joint e f w v u) (h' : Joint e f w' v u') :
    Unaffected e.docs w w' := by
  have ours : ∀ {w u : World}, Joint e f w v u → ∀ {s : SlotId} {k : Slot}, w.slots[s]? = some k → e.docs k.doc →
      ∃ s' k', s = e.slot s' ∧ v.slots[s']? = some k' ∧ k = k'.via e := by
    intro w u h s k found mine
    rcases h.apart.slot.cover s with ⟨s', rfl⟩ | ⟨s', rfl⟩
    · rw [h.mine.slots, Option.map_eq_some_iff] at found
      obtain ⟨k', found, rfl⟩ := found
      exact ⟨s', k', rfl, found, rfl⟩
    · rw [h.other.slots, Option.map_eq_some_iff] at found
      obtain ⟨k', found, rfl⟩ := found
      exact absurd (h.other.opened s' k' found) ((h.apart.docs _).1 mine)
  have kept : ∀ {w u w' u' : World}, Joint e f w v u → Joint e f w' v u' → ∀ (s : SlotId) k, e.docs k.doc →
      w.slots[s]? = some k → w'.slots[s]? = some k := by
    intro w u w' u' h h' s k mine found
    obtain ⟨s', k', rfl, at_v, rfl⟩ := ours h found mine
    rw [h'.mine.slots, at_v]
    rfl
  refine ⟨fun s k mine => ⟨kept h' h s k mine, kept h h' s k mine⟩, fun name mine => ?_, fun s k found mine t mem => ?_⟩
  · rw [h.mine.gallery.previews name mine, h'.mine.gallery.previews name mine]
  · obtain ⟨s', k', rfl, -, rfl⟩ := ours h found mine
    obtain ⟨t', -, rfl⟩ := List.mem_map.1 mem
    refine ⟨by rw [h.mine.tasks, h'.mine.tasks], ?_, ?_⟩
    · rw [h.mine.alarms_of t', h'.mine.alarms_of t']
    · rw [h.mine.resumes_of t', h'.mine.resumes_of t']

/-- Every run of a new editor is a run of each part, laid side by side. -/
theorem parts_joint (setup : Setup) (finder : Finder) (tag : String) {subscribers : List Subscriber}
    (own : ∀ y ∈ subscribers, y.IsOwn) (docs : DocId → Prop) (whole : ∀ d d' : DocId, d.same d' → (docs d ↔ docs d'))
    (before after : List Input) (plain : ∀ i ∈ before, i.IsPlain fun _ => True) :
    let w := start setup finder (.new tag) subscribers
    let S := w.sidesAlong docs (fun _ => []) (before ++ after)
    Joint (S.inlay docs true) (S.inlay docs false) (w.run before)
      ((w.partOf (S.inlay docs true)).run (w.shares (S.inlay docs true) before))
      ((w.partOf (S.inlay docs false)).run (w.shares (S.inlay docs false) before)) := by
  intro w S
  have new : w.IsNew := isNew_start setup finder (.new tag) fun y mem => (own y mem).isPublic
  have shared : Shared (fun _ => []) w := by
    intro k
    cases k with
    | call i =>
      show 0 = _
      simp only [w, Extent.of, extent, start, List.getElem?_map]
      cases subscribers[i]? <;> rfl
    | _ => rfl
  have first : Joint (S.inlay docs true) (S.inlay docs false) w (w.partOf (S.inlay docs true)) (w.partOf (S.inlay docs false)) :=
    ⟨S.apart whole, inlaid_start .., inlaid_start .., .inl ⟨rfl, rfl⟩⟩
  obtain ⟨mine, own'⟩ := isNew_partOf (e := S.inlay docs true) new own
  obtain ⟨theirs, own''⟩ := isNew_partOf (e := S.inlay docs false) new own
  exact joint_run whole shared ⟨_, _, new.flight⟩ (by simp [Lone, new.alarms]) first (mine.minded own' docs)
    (theirs.minded own'' fun d => ¬ docs d) plain

/-- However the documents are divided, every run of the coordinator goes, as far as it is for the
documents of a part, as it would go if nothing were asked for the others: a step on behalf of others
leaves the part as it is, at every time the part stands in the whole as it stands alone, and
subscribers are told the same of its documents. Only the numbers of openings and pages differ, since
those of the others are taken too. -/
theorem documents_independent (setup : Setup) (finder : Finder) (tag : String) {subscribers : List Subscriber}
    (own : ∀ y ∈ subscribers, y.IsOwn) {inputs : List Input} (plain : ∀ i ∈ inputs, i.IsPlain fun _ => True)
    (docs : DocId → Prop) (whole : ∀ d d' : DocId, d.same d' → (docs d ↔ docs d')) :
    let w := start setup finder (.new tag) subscribers
    ∃ e f : Inlay, e.docs = docs ∧ e.loose ∧
      (∀ before after, inputs = before ++ after →
        Joint e f (w.run before) ((w.partOf e).run (w.shares e before)) ((w.partOf f).run (w.shares f before))) ∧
      (∀ before i after, inputs = before ++ i :: after → (w.run before).share e i = [] →
        Unaffected docs (w.run before) ((w.run before).apply i)) ∧
      (w.run inputs).told.filter (fun x => truth (docs (.name x.2.2.doc))) =
        ((w.partOf e).run (w.shares e inputs)).told.map fun x => (x.1, x.2.1, x.2.2.via e) := by
  intro w
  let S := w.sidesAlong docs (fun _ => []) inputs
  have joint : ∀ before after, inputs = before ++ after →
      Joint (S.inlay docs true) (S.inlay docs false) (w.run before)
        ((w.partOf (S.inlay docs true)).run (w.shares (S.inlay docs true) before))
        ((w.partOf (S.inlay docs false)).run (w.shares (S.inlay docs false) before)) := by
    rintro before after rfl
    exact parts_joint setup finder tag own docs whole before after fun i mem => plain i (List.mem_append_left _ mem)
  refine ⟨S.inlay docs true, S.inlay docs false, rfl, rfl, joint, fun before i after eq silent => ?_,
    (joint inputs [] (by simp)).mine.told⟩
  have here := joint before (i :: after) eq
  have next := joint (before ++ [i]) after (by simp [eq])
  have nothing : w.shares (S.inlay docs true) (before ++ [i]) = w.shares (S.inlay docs true) before := by
    rw [shares_append, shares, silent]
    simp [shares]
  rw [nothing, run_append] at next
  exact here.unaffected next

/-- Documents are edited one after the other, each by a caller of its own. -/
def editingEach (names : List String) : List Input :=
  names.flatMap fun name => .begin (.edit (.name name) "Hi") :: List.replicate 5 .tick

/-- The second of two documents that are edited gets both its updates, the same as alone. -/
theorem second_independent : ∃ e : Inlay, (e.docs = fun d => d = .name "b") ∧
    (sample.run (editingEach ["a", "b"] ++ List.replicate 40 .tick)).told.filter
        (fun x => truth (DocId.name x.2.2.doc = .name "b")) =
      ((sample.partOf e).run (sample.shares e (editingEach ["a", "b"] ++ List.replicate 40 .tick))).told.map
        (fun x => (x.1, x.2.1, x.2.2.via e)) ∧
    (sample.run (editingEach ["a", "b"] ++ List.replicate 40 .tick)).told.map (fun x => x.2.2.doc) =
    ["b", "a", "b", "a"] := by
  have plain : ∀ i ∈ editingEach ["a", "b"] ++ List.replicate 40 .tick, i.IsPlain fun _ => True := by
    intro i mem
    have given : i = .begin (.edit (.name "a") "Hi") ∨ i = .begin (.edit (.name "b") "Hi") ∨ i = .tick := by
      simp only [editingEach, List.mem_append, List.mem_flatMap, List.mem_cons, List.mem_replicate] at mem
      grind
    rcases given with rfl | rfl | rfl
    · exact ⟨.edit _ _, trivial⟩
    · exact ⟨.edit _ _, trivial⟩
    · trivial
  have whole : ∀ d d' : DocId, d.same d' → (d = .name "b" ↔ d' = .name "b") := by
    intro d d' same
    constructor
    · rintro rfl
      simp only [DocId.same, decide_eq_true_eq] at same
      exact eq_name_of_same (by simp [DocId.same, same])
    · rintro rfl
      exact eq_name_of_same same
  have own : ∀ y ∈ [Subscriber.script fun _ => []], y.IsOwn := by simp [Subscriber.IsOwn]
  obtain ⟨e, f, mine, -, -, -, told⟩ := documents_independent _ _ "" own plain (fun d => d = .name "b") whole
  exact ⟨e, mine, told, rfl⟩

/-- Closing all documents is for each of them, but the second is closed only when the tasks of the first have ended: its
compile, which ends in the meantime, is told to subscribers, and is not if the first has never been edited. -/
theorem closing_all_interferes :
    let updates := fun w : World => w.told.filterMap fun x =>
      if x.2.2.doc = "b" then some (x.2.1, x.2.2.generation, x.2.2.mode.kind) else none
    let closing := fun names => sample.run (editingEach names ++ .begin .closeAll :: List.replicate 25 .tick)
    updates (closing ["a", "b"]) = [(0, 1, .compilerError), (0, 1, .pending)] ∧
      updates (closing ["b"]) = [(0, 1, .pending)] ∧
      (closing ["a", "b"]).tasks.all (·.ended) = true ∧ (closing ["b"]).tasks.all (·.ended) = true := by
  refine ⟨rfl, rfl, rfl, rfl⟩

end
end World
end InkPreview.Live
