import InkPreview.Proofs.Live.Endings
/-!
The ledger of ends: who is told when a task ends, what has been told and not been learned yet, and how
many ends each group still has to learn of. Every step is a row of entries in it, and every entry
keeps it balanced. Main statements: `Flight.apply_writes`, `Ledger.Balanced.all_ended`.
-/
namespace InkPreview.Live

/-- Jobs that tell of the end of a task, so that a group, a slot or a task learns of it. -/
def Job.isNotice : Job → Bool
  | .joined _ | .forget _ _ | .report _ _ => true
  | .resume _ => false

/-- The task whose end is told of, if the job names it. -/
def Job.ended? : Job → Option TaskId
  | .forget _ u | .report _ u => some u
  | _ => none

/-- A group, with the number of ends it has not learned of. -/
structure Tally where
  members : List TaskId
  missing : Nat

def Tally.none : Tally := ⟨[], 0⟩

def Group.tally (h : Group) : Tally := ⟨h.members, h.missing⟩

@[ext] structure Ledger where
  notices : List Job
  /-- The number of tasks so far. -/
  size : Nat
  /-- The tasks that are there and have not ended. -/
  out : TaskId → Bool
  watchers : TaskId → List Job
  tally : GroupId → Tally

namespace Ledger

/-- Watchers that a new task `u` may have, or one that is given new ones. -/
def Quiet (u : TaskId) (ws : List Job) : Prop := ∀ j ∈ ws, j.ended? = some u

theorem Quiet.joins {u : TaskId} {ws : List Job} (h : Quiet u ws) (g : GroupId) : .joined g ∉ ws :=
  fun mem => nomatch h _ mem

/-- The task tells those in the list. -/
def tell (l : Ledger) (u : TaskId) (ws : List Job) : Ledger :=
  { l with watchers := fun v => if v = u then ws else l.watchers v }

/-- The group will be told of the end of the task, at once if that has come. -/
def notify (l : Ledger) (g : GroupId) (u : TaskId) : Ledger :=
  if l.out u then l.tell u (l.watchers u ++ [.joined g]) else { l with notices := l.notices ++ [.joined g] }

/-- More members for a group. -/
def join (l : Ledger) (g : GroupId) (us : List TaskId) : Ledger :=
  { l with tally := fun h =>
      if h = g then ⟨(l.tally g).members ++ us, (l.tally g).missing + us.length⟩ else l.tally h }

def enter (l : Ledger) (g : GroupId) (u : TaskId) : Ledger := (l.join g [u]).notify g u

def add (l : Ledger) (ws : List Job) : Ledger :=
  { l.tell l.size ws with size := l.size + 1, out := fun v => v == l.size || l.out v }

def close (l : Ledger) (u : TaskId) : Ledger :=
  { l with
    out := fun v => l.out v && v != u
    notices := l.notices ++ (l.watchers u).filter Job.isNotice }

/-- The group learns of an end. -/
def learn (l : Ledger) (g : GroupId) (rest : List Job) : Ledger :=
  { l with
    notices := rest
    tally := fun h => if h = g then ⟨(l.tally g).members, (l.tally g).missing - 1⟩ else l.tally h }

/-- One entry. Only tasks of `E` end. -/
inductive Books (E : TaskId → Prop) : Ledger → Ledger → Prop
  | enter (l : Ledger) (g : GroupId) {u : TaskId} (there : u < l.size) : Books E l (l.enter g u)
  | add (l : Ledger) {ws : List Job} (quiet : Quiet l.size ws) : Books E l (l.add ws)
  | tell (l : Ledger) {u : TaskId} {ws : List Job} (quiet : Quiet u ws) : Books E l (l.tell u ws)
  | close (l : Ledger) {u : TaskId} (mine : E u) (out : l.out u = true) : Books E l (l.close u)
  | drop {l : Ledger} {j : Job} {rest : List Job} (h : l.notices = j :: rest) :
      Books E l { l with notices := rest }
  | learn {l : Ledger} {g : GroupId} {rest : List Job} (h : l.notices = .joined g :: rest) :
      Books E l (l.learn g rest)

/-- Rows of entries. -/
def Kept (E : TaskId → Prop) : Ledger → Ledger → Prop := Relation.ReflTransGen (Books E)

/-- A group waits for no fewer ends than are to come. -/
structure Balanced (l : Ledger) : Prop where
  within : ∀ u, l.out u = true → u < l.size
  there : ∀ g, ∀ u ∈ (l.tally g).members, u < l.size
  due : ∀ g, l.notices.count (.joined g) + (l.tally g).members.countP l.out ≤ (l.tally g).missing
  watched : ∀ g u, l.out u = true → (l.watchers u).count (.joined g) ≤ (l.tally g).members.count u
  /-- A task that is said to have ended has, and will say so itself. -/
  told : ∀ j ∈ l.notices, ∀ u ∈ j.ended?, u < l.size ∧ l.out u = false
  /-- Whatever a task tells at its end is that it has ended. -/
  own : ∀ u, l.out u = true → ∀ j ∈ l.watchers u, (∃ g, j = .joined g) ∨ j.ended? = some u

section
variable {l l' : Ledger} {E : TaskId → Prop} {g : GroupId} {u : TaskId}

/-- A task that is out stays out, unless it ends. -/
theorem Books.out (h : Books E l l') (out : l.out u = true) (other : ¬ E u) : l'.out u = true := by
  cases h with
  | enter g v =>
    unfold Ledger.enter notify
    split
    · exact out
    · exact out
  | add => simp [Ledger.add, out]
  | @close v mine =>
    have apart : u ≠ v := fun eq => other (eq ▸ mine)
    simp [Ledger.close, out, apart]
  | tell | drop | learn => exact out

theorem Kept.out (h : Kept E l l') (out : l.out u = true) (other : ¬ E u) : l'.out u = true := by
  induction h with
  | refl => exact out
  | tail _ step ih => exact step.out ih other

/-- To admit tasks one after the other comes to admitting all of them before the group is told. -/
theorem foldl_enter (l : Ledger) (g : GroupId) (us : List TaskId) :
    us.foldl (·.enter g) l = us.foldl (·.notify g) (l.join g us) := by
  have later : ∀ (l : Ledger) (u : TaskId) (us : List TaskId), (l.notify g u).join g us = (l.join g us).notify g u := by
    intro l u us
    have same : (l.join g us).out = l.out := rfl
    unfold notify
    rw [same]
    cases l.out u with
    | true => rfl
    | false => rfl
  induction us generalizing l with
  | nil =>
    refine Ledger.ext rfl rfl rfl rfl (funext fun h => ?_)
    by_cases here : h = g
    · simp [join, here]
    · simp [join, here]
  | cons u rest ih =>
    have both : (l.join g [u]).join g rest = l.join g (u :: rest) := by
      refine Ledger.ext rfl rfl rfl rfl (funext fun h => ?_)
      by_cases here : h = g
      · simp [join, here]
        omega
      · simp [join, here]
    rw [List.foldl_cons, ih, enter, later, both, List.foldl_cons]

/-! ### Every entry keeps the balance -/

theorem countP_close (us : List TaskId) (out : TaskId → Bool) (here : out u = true) :
    us.countP (fun v => out v && v != u) + us.count u = us.countP out := by
  induction us with
  | nil => rfl
  | cons v rest ih =>
    rw [List.countP_cons, List.countP_cons, List.count_cons]
    by_cases same : v = u
    · simp [same, here]
      omega
    · simp [same]
      omega

namespace Balanced

theorem join_tally (l : Ledger) (g g' : GroupId) (u : TaskId) : (l.join g [u]).tally g' =
    ⟨(l.tally g').members ++ if g' = g then [u] else [], (l.tally g').missing + if g' = g then 1 else 0⟩ := by
  by_cases here : g' = g
  · simp [join, here]
  · simp [join, here]

theorem enter (h : l.Balanced) (g : GroupId) (there : u < l.size) : (l.enter g u).Balanced := by
  have joined : ∀ g', (Job.joined g == Job.joined g') = decide (g' = g) := by
    intro g'
    by_cases here : g' = g
    · simp [here]
    · have other : Job.joined g ≠ Job.joined g' := fun eq => here (Job.joined.inj eq).symm
      simp [here, other]
  have there' : ∀ g', ∀ v ∈ ((l.join g [u]).tally g').members, v < l.size := by
    intro g' v mem
    rw [join_tally] at mem
    rcases List.mem_append.1 mem with old | new
    · exact h.there g' v old
    · split at new
      · exact List.mem_singleton.1 new ▸ there
      · cases new
  unfold Ledger.enter notify
  split
  · rename_i out
    have out : l.out u = true := out
    refine ⟨h.within, there', fun g' => ?_, fun g' v out' => ?_, h.told, fun v out' j mem => ?_⟩
    · have due := h.due g'
      show l.notices.count (.joined g') + ((l.join g [u]).tally g').members.countP l.out ≤
        ((l.join g [u]).tally g').missing
      rw [join_tally]
      by_cases here : g' = g
      · simp [here, out] at due ⊢
        omega
      · simpa [here] using due
    · have watched := h.watched g' v out'
      show (if v = u then l.watchers u ++ [.joined g] else l.watchers v).count (.joined g') ≤
        ((l.join g [u]).tally g').members.count v
      rw [join_tally]
      by_cases here : v = u
      · subst here
        simp only [if_true, List.count_append, List.count_singleton, joined]
        by_cases same : g' = g
        · simp [same] at watched ⊢
          omega
        · simpa [same] using watched
      · simp only [here, if_false]
        rw [List.count_append]
        omega
    · have mem : j ∈ if v = u then l.watchers u ++ [.joined g] else l.watchers v := mem
      by_cases here : v = u
      · rw [if_pos here] at mem
        rcases List.mem_append.1 mem with old | new
        · exact here ▸ h.own u out j old
        · exact .inl ⟨g, List.mem_singleton.1 new⟩
      · rw [if_neg here] at mem
        exact h.own v out' j mem
  · rename_i ended
    have ended : ¬ l.out u = true := ended
    refine ⟨h.within, there', fun g' => ?_, fun g' v out' => ?_, fun j mem x named => ?_, h.own⟩
    · have due := h.due g'
      show (l.notices ++ [Job.joined g]).count (Job.joined g') + ((l.join g [u]).tally g').members.countP l.out ≤
        ((l.join g [u]).tally g').missing
      rw [join_tally, List.count_append, List.count_singleton, joined]
      by_cases here : g' = g
      · simp [here, ended] at due ⊢
        omega
      · simpa [here] using due
    · have watched := h.watched g' v out'
      show (l.watchers v).count (.joined g') ≤ ((l.join g [u]).tally g').members.count v
      rw [join_tally, List.count_append]
      omega
    · rcases List.mem_append.1 mem with old | new
      · exact h.told j old x named
      · cases List.mem_singleton.1 new
        cases named

theorem add (h : l.Balanced) {ws : List Job} (quiet : Quiet l.size ws) : (l.add ws).Balanced := by
  have old : ∀ v, v < l.size → (l.add ws).out v = l.out v ∧ (l.add ws).watchers v = l.watchers v := by
    intro v lt
    have other : v ≠ l.size := Nat.ne_of_lt lt
    exact ⟨by simp [Ledger.add, other], by simp [Ledger.add, tell, other]⟩
  refine ⟨fun u out => ?_, fun g u mem => ?_, fun g => ?_, fun g u out => ?_, fun j mem u named => ?_,
    fun u out j mem => ?_⟩
  · by_cases new : u = l.size
    · exact new ▸ Nat.lt_succ_self _
    · exact Nat.lt_succ_of_lt (h.within u (by simpa [Ledger.add, new] using out))
  · exact Nat.lt_succ_of_lt (h.there g u mem)
  · have same : (l.tally g).members.countP (l.add ws).out = (l.tally g).members.countP l.out :=
      List.countP_congr fun v mem => by rw [(old v (h.there g v mem)).1]
    show l.notices.count (.joined g) + (l.tally g).members.countP (l.add ws).out ≤ (l.tally g).missing
    rw [same]
    exact h.due g
  · by_cases new : u = l.size
    · simp [Ledger.add, tell, new, List.count_eq_zero_of_not_mem (quiet.joins g)]
    · have out' : l.out u = true := by simpa [Ledger.add, new] using out
      rw [(old u (h.within u out')).2]
      exact h.watched g u out'
  · obtain ⟨lt, ended⟩ := h.told j mem u named
    exact ⟨Nat.lt_succ_of_lt lt, (old u lt).1.trans ended⟩
  · by_cases new : u = l.size
    · exact .inr (new ▸ quiet j (by simpa [Ledger.add, tell, new] using mem))
    · have out' : l.out u = true := by simpa [Ledger.add, new] using out
      exact h.own u out' j ((old u (h.within u out')).2 ▸ mem)

theorem tell (h : l.Balanced) {ws : List Job} (quiet : Quiet u ws) : (l.tell u ws).Balanced := by
  refine ⟨h.within, h.there, h.due, fun g v out => ?_, h.told, fun v out j mem => ?_⟩
  · by_cases here : v = u
    · simp [Ledger.tell, here, List.count_eq_zero_of_not_mem (quiet.joins g)]
    · simpa [Ledger.tell, here] using h.watched g v out
  · by_cases here : v = u
    · exact .inr (here ▸ quiet j (by simpa [Ledger.tell, here] using mem))
    · exact h.own v out j (by simpa [Ledger.tell, here] using mem)

theorem close (h : l.Balanced) (out : l.out u = true) : (l.close u).Balanced := by
  have still : ∀ v, (l.close u).out v = true → l.out v = true ∧ v ≠ u := fun v out' => by
    simpa [Ledger.close] using out'
  refine ⟨fun v out' => h.within v (still v out').1, h.there, fun g => ?_,
    fun g v out' => h.watched g v (still v out').1, fun j mem v named => ?_,
    fun v out' => h.own v (still v out').1⟩
  · have due := h.due g
    have watched := h.watched g u out
    have fewer := countP_close (l.tally g).members l.out out
    have told : ((l.watchers u).filter Job.isNotice).count (.joined g) = (l.watchers u).count (.joined g) :=
      List.count_filter rfl
    show (l.notices ++ (l.watchers u).filter Job.isNotice).count (.joined g) +
      (l.tally g).members.countP (fun v => l.out v && v != u) ≤ (l.tally g).missing
    rw [List.count_append, told]
    omega
  · rcases List.mem_append.1 mem with old | new
    · obtain ⟨lt, ended⟩ := h.told j old v named
      exact ⟨lt, by simp [Ledger.close, ended]⟩
    · rcases h.own u out j (List.mem_filter.1 new).1 with ⟨g, rfl⟩ | own
      · cases named
      · obtain rfl : u = v := Option.some.inj (own.symm.trans named)
        exact ⟨h.within u out, by simp [Ledger.close]⟩

theorem drop (h : l.Balanced) {j : Job} {rest : List Job} (first : l.notices = j :: rest) :
    ({ l with notices := rest } : Ledger).Balanced := by
  refine ⟨h.within, h.there, fun g => ?_, h.watched, fun k mem => ?_, h.own⟩
  · have due := h.due g
    rw [first, List.count_cons] at due
    dsimp only
    omega
  · exact h.told k (first ▸ List.mem_cons_of_mem j mem)

theorem learn (h : l.Balanced) {rest : List Job} (first : l.notices = .joined g :: rest) :
    (l.learn g rest).Balanced := by
  have members : ∀ g', ((l.learn g rest).tally g').members = (l.tally g').members := by
    intro g'
    simp only [Ledger.learn]
    split
    · rename_i here
      rw [here]
    · rfl
  refine ⟨h.within, fun g' => ?_, fun g' => ?_, fun g' => ?_, fun k mem => ?_, h.own⟩
  · rw [members]
    exact h.there g'
  · have due := h.due g'
    rw [first, List.count_cons] at due
    rw [members]
    by_cases here : g' = g
    · subst here
      simp [Ledger.learn] at due ⊢
      omega
    · have other : (Job.joined g == Job.joined g') = false := by simpa using fun eq : g = g' => here eq.symm
      simp [Ledger.learn, here, other] at due ⊢
      exact due
  · rw [members]
    exact h.watched g'
  · exact h.told k (first ▸ List.mem_cons_of_mem _ mem)

theorem books (h : l.Balanced) (step : Books E l l') : l'.Balanced := by
  cases step with
  | enter g there => exact h.enter g there
  | add quiet => exact h.add quiet
  | tell quiet => exact h.tell quiet
  | close _ out => exact h.close out
  | drop first => exact h.drop first
  | learn first => exact h.learn first

theorem kept (h : l.Balanced) (steps : Kept E l l') : l'.Balanced := by
  induction steps with
  | refl => exact h
  | tail _ step ih => exact ih.books step

/-- A group that waits for no more ends has no members that are out. -/
theorem all_ended (h : l.Balanced) (none : (l.tally g).missing = 0) (mem : u ∈ (l.tally g).members) :
    l.out u = false := by
  have due := h.due g
  rw [none] at due
  have nobody : (l.tally g).members.countP l.out = 0 := by omega
  simpa using List.countP_eq_zero.1 nobody u mem

end Balanced

end
end Ledger

namespace World

def ledger (w : World) : Ledger where
  notices := w.queue.filter Job.isNotice
  size := w.tasks.length
  out u := (w.tasks[u]?.map fun k => !k.ended).getD false
  watchers u := (w.tasks[u]?.map (·.watchers)).getD []
  tally g := (w.groups[g]?.map Group.tally).getD .none

section
variable {w v now : World} {t u : TaskId} {k : Task} {E : TaskId → Prop}

theorem ledger_out (found : w.tasks[u]? = some k) (awake : k.wait ≠ .ended) : w.ledger.out u = true := by
  simpa [ledger, found, Task.ended] using awake

theorem ledger_out_iff : w.ledger.out u = true ↔ ∃ k, w.tasks[u]? = some k ∧ k.wait ≠ .ended := by
  simp only [ledger]
  cases w.tasks[u]? <;> simp [Task.ended]

/-! ### Steps that the ledger does not show -/

theorem ledger_modifyTask (w : World) (t : TaskId) (f : Task → Task)
    (same : ∀ k, w.tasks[t]? = some k → (f k).ended = k.ended ∧ (f k).watchers = k.watchers) :
    (w.modifyTask t f).ledger = w.ledger := by
  have read : ∀ {α : Type} (g : Task → α) (u : TaskId),
      (∀ k, w.tasks[t]? = some k → g (f k) = g k) → (w.modifyTask t f).tasks[u]?.map g = w.tasks[u]?.map g := by
    intro α g u same
    simp only [modifyTask, List.getElem?_modify]
    by_cases here : t = u
    · subst here
      cases found : w.tasks[t]? with
      | none => rfl
      | some k => simp [same k found]
    · simp [here]
  ext1
  · rfl
  · exact List.length_modify _ _ _
  · funext u
    show (((w.modifyTask t f).tasks[u]?.map fun k => !k.ended).getD false) = _
    rw [read (fun k => !k.ended) u fun k found => by simp [(same k found).1]]
    rfl
  · funext u
    show (((w.modifyTask t f).tasks[u]?.map (·.watchers)).getD []) = _
    rw [read (·.watchers) u fun k found => (same k found).2]
    rfl
  · rfl

theorem ledger_same (h : v.tasks = w.tasks) (h' : v.groups = w.groups)
    (queue : v.queue.filter Job.isNotice = w.queue.filter Job.isNotice) : v.ledger = w.ledger := by
  simp only [ledger, h, h', queue]

theorem Alike.ledger (h : w.Alike v) : v.ledger = w.ledger := ledger_same h.tasks h.groups (by rw [h.queue])

theorem ledger_wake (s : Signal) (awake : w.ledger.out t = true) : (w.wake t s).ledger = w.ledger := by
  obtain ⟨k', found', awake⟩ := ledger_out_iff.1 awake
  have woken := ledger_modifyTask w t (fun k => { k with wait := .turn, signal := s }) fun k found => by
    obtain rfl := Option.some.inj (found'.symm.trans found)
    simp [Task.ended, awake]
  rw [← woken]
  refine ledger_same rfl rfl ?_
  simp [World.wake, enqueue, modifyTask, Job.isNotice]

/-- Alarms are set for tasks that have not ended. -/
def Rung (w : World) : Prop := ∀ a ∈ w.alarms, w.ledger.out a.task = true

theorem Rung.same (h : w.Rung) (alarms : ∀ a ∈ v.alarms, a ∈ w.alarms) (ledger : v.ledger = w.ledger) :
    v.Rung := fun a ha => ledger ▸ h a (alarms a ha)

theorem Nudge.ledger {H : TaskId → Prop} (h : Nudge H w v) (rung : w.Rung) :
    v.ledger = w.ledger ∧ v.Rung := by
  have woken : ∀ {x : World} (t : TaskId) (s : Signal), x.alarms = w.alarms → x.ledger = w.ledger →
      w.ledger.out t = true → (x.wake t s).ledger = w.ledger ∧ (x.wake t s).Rung := by
    intro x t s alarms ledger awake
    have same := (ledger_wake (w := x) s (ledger ▸ awake)).trans ledger
    exact ⟨same, rung.same (fun a ha => alarms ▸ (List.mem_filter.1 ha).1) same⟩
  cases h with
  | @ask t =>
    have same := ledger_modifyTask w t (fun k => { k with mustCancel := true }) fun _ _ => ⟨rfl, rfl⟩
    exact ⟨same, rung.same (fun _ => id) same⟩
  | regroup g =>
    have same : ({ w with groups := w.groups.modify g fun h => { h with cancelRequested := true } } : World).ledger
        = w.ledger := by
      refine Ledger.ext rfl rfl rfl rfl (funext fun h => ?_)
      simp only [World.ledger, List.getElem?_modify]
      cases w.groups[h]? with
      | none => rfl
      | some k => by_cases here : g = h <;> simp [here, Group.tally]
    exact ⟨same, rung.same (fun _ => id) same⟩
  | @detach t k _ found loose =>
    have awake : w.ledger.out t = true := ledger_out found fun ended => by
      rw [ended] at loose
      exact loose
    cases k.wait with
    | lock s => exact woken t .cancelled rfl rfl awake
    | _ => exact woken t .cancelled rfl rfl awake
  | ring set => exact woken _ _ rfl rfl (rung _ set)
  | join found waits | learn found waits | hear found waits =>
    exact woken _ _ rfl rfl (ledger_out found (by simp [waits]))

theorem Nudges.ledger {H : TaskId → Prop} (h : Nudges H w v) (rung : w.Rung) :
    v.ledger = w.ledger ∧ v.Rung :=
  h.keep (P := fun x => x.ledger = w.ledger ∧ x.Rung)
    (fun _ _ same step => by
      obtain ⟨next, rung⟩ := step.ledger same.2
      exact ⟨next.trans same.1, rung⟩) ⟨rfl, rung⟩

/-! ### Steps that the ledger shows -/

/-- What is read of a list that has one more at its end. -/
theorem getD_concat {α β : Type} (xs : List α) (x : α) (f : α → β) (y : β) (i : Nat) :
    ((xs ++ [x])[i]?.map f).getD y = if i = xs.length then f x else (xs[i]?.map f).getD y := by
  rw [List.getElem?_append]
  split
  · rename_i lt
    rw [if_neg (Nat.ne_of_lt lt)]
  · rename_i beyond
    by_cases here : i = xs.length
    · simp [here]
    · have more : i - xs.length ≠ 0 := by omega
      rw [if_neg here, List.getElem?_eq_none (Nat.not_lt.1 beyond), List.getElem?_singleton, if_neg more]

theorem ledger_add (w : World) {k : Task} (awake : k.wait ≠ .ended) :
    ({ w with tasks := w.tasks ++ [k] } : World).ledger = w.ledger.add k.watchers := by
  refine Ledger.ext rfl (List.length_append) (funext fun u => ?_) (funext fun u => ?_) rfl
  · have out : k.ended = false := by simpa [Task.ended] using awake
    show ((w.tasks ++ [k])[u]?.map fun k => !k.ended).getD false = _
    rw [getD_concat]
    by_cases here : u = w.tasks.length
    · simp [here, out, ledger, Ledger.add]
    · simp [here, ledger, Ledger.add]
  · exact getD_concat _ _ _ _ u

theorem ledger_spawn (w : World) (op : Op) (ws : TaskId → List Job) :
    (w.spawn op ws).2.ledger = w.ledger.add (ws w.tasks.length) := by
  have added := ledger_add w (k := ⟨[], .start op, .turn, false, ws w.tasks.length, none⟩) nofun
  rw [← added]
  refine ledger_same rfl rfl ?_
  simp [World.spawn, enqueue, Job.isNotice]

/-- What the ledger shows of a task that is given other watchers. -/
theorem ledger_tell (w : World) (u : TaskId) (f : List Job → List Job) (there : u < w.tasks.length) :
    (w.modifyTask u fun k => { k with watchers := f k.watchers }).ledger =
      w.ledger.tell u (f (w.ledger.watchers u)) := by
  refine Ledger.ext rfl (List.length_modify _ _ _) (funext fun v => ?_) (funext fun v => ?_) rfl
  · simp only [ledger, Ledger.tell, modifyTask, List.getElem?_modify]
    cases w.tasks[v]? with
    | none => rfl
    | some k => by_cases here : u = v <;> simp [here, Task.ended]
  · simp only [ledger, Ledger.tell, modifyTask, List.getElem?_modify]
    by_cases here : v = u
    · subst here
      simp [List.getElem?_eq_getElem there]
    · have other : ¬ u = v := fun eq => here eq.symm
      simp [here, other]

theorem ledger_watchOrQueue (w : World) (g : GroupId) (there : u < w.tasks.length) :
    (w.watchOrQueue u (.joined g)).ledger = w.ledger.notify g u := by
  have same : w.ledger.out u = !w.hasEnded u := by
    simp only [hasEnded, ledger]
    cases w.tasks[u]? <;> simp
  unfold Ledger.notify watchOrQueue
  rw [same]
  cases w.hasEnded u with
  | true => simp [ledger, enqueue, Job.isNotice]
  | false => exact ledger_tell w u (· ++ [.joined g]) there

theorem ledger_watchAll (w : World) (g : GroupId) (us : List TaskId) (there : ∀ u ∈ us, u < w.tasks.length) :
    (us.foldl (fun v u => v.watchOrQueue u (.joined g)) w).ledger = us.foldl (·.notify g) w.ledger := by
  induction us generalizing w with
  | nil => rfl
  | cons u rest ih =>
    have length : (w.watchOrQueue u (.joined g)).tasks.length = w.tasks.length := by
      unfold watchOrQueue
      split
      · rfl
      · exact List.length_modify _ _ _
    rw [List.foldl_cons, ih _ fun v mem => length ▸ there v (List.mem_cons_of_mem u mem),
      ledger_watchOrQueue w g (there u (by simp)), List.foldl_cons]

/-- Tasks become a group by being admitted one after the other. -/
theorem ledger_enroll (w : World) (t : TaskId) {us : List TaskId} (there : ∀ u ∈ us, u < w.tasks.length) :
    (w.enroll t us).ledger = us.foldl (·.enter w.groups.length) w.ledger := by
  have joined : ({ w with groups := w.groups ++ [⟨us, us.length, t, false⟩] } : World).ledger =
      w.ledger.join w.groups.length us := by
    refine Ledger.ext rfl rfl rfl rfl (funext fun g => ?_)
    simp only [ledger, Ledger.join, getD_concat]
    by_cases here : g = w.groups.length
    · simp [here, Group.tally, Tally.none]
    · simp [here]
  rw [enroll, ledger_watchAll { w with groups := w.groups ++ [⟨us, us.length, t, false⟩] } w.groups.length us there,
    joined, Ledger.foldl_enter]

/-! ### Steps as rows of entries -/

/-- The ledger of `v` is that of `w` with more entries. Only tasks of `E` end. -/
def Writes (E : TaskId → Prop) (w v : World) : Prop := Ledger.Kept E w.ledger v.ledger

def nobody (_ : TaskId) : Prop := False

namespace Writes

theorem of_eq (h : v.ledger = w.ledger) : Writes E w v := by
  unfold Writes
  rw [h]
  exact .refl

theorem one (h : Ledger.Books E w.ledger v.ledger) : Writes E w v := Relation.ReflTransGen.single h

theorem trans {x : World} (h : Writes E w v) (h' : Writes E v x) : Writes E w x :=
  Relation.ReflTransGen.trans h h'

theorem rung (h : Writes nobody w v) (alarms : ∀ a ∈ v.alarms, a ∈ w.alarms) (rung : w.Rung) : v.Rung :=
  fun a mem => Ledger.Kept.out h (rung a (alarms a mem)) id

theorem mono {F : TaskId → Prop} (h : Writes E w v) (more : ∀ u, E u → F u) : Writes F w v := by
  refine Relation.ReflTransGen.mono (fun l l' step => ?_) _ _ h
  cases step with
  | enter g there => exact .enter _ g there
  | add quiet => exact .add _ quiet
  | tell quiet => exact .tell _ quiet
  | close mine out => exact .close _ (more _ mine) out
  | drop first => exact .drop first
  | learn first => exact .learn first

/-- What is appended to the list of tasks. -/
theorem spawn (w : World) (op : Op) {ws : TaskId → List Job} (quiet : Ledger.Quiet w.tasks.length (ws w.tasks.length)) :
    Writes E w (w.spawn op ws).2 := by
  refine one ?_
  rw [ledger_spawn]
  exact .add _ quiet

theorem enroll (w : World) (t : TaskId) {us : List TaskId} (there : ∀ u ∈ us, u < w.tasks.length) :
    Writes E w (w.enroll t us) := by
  unfold Writes
  rw [ledger_enroll w t there]
  have kept : ∀ (l : Ledger), (∀ u ∈ us, u < l.size) →
      Ledger.Kept E l (us.foldl (·.enter w.groups.length) l) := by
    clear there
    induction us with
    | nil => exact fun _ _ => .refl
    | cons u rest ih =>
      intro l there
      have size : (l.enter w.groups.length u).size = l.size := by
        unfold Ledger.enter Ledger.notify
        split
        · rfl
        · rfl
      exact .head (.enter l _ (there u (by simp))) (ih _ fun v mem =>
        size.symm ▸ there v (List.mem_cons_of_mem u mem))
  exact kept w.ledger there

end Writes

theorem nudges_writes {H : TaskId → Prop} (h : Nudges H w v) (rung : w.Rung) : Writes E w v ∧ v.Rung :=
  ⟨.of_eq (h.ledger rung).1, (h.ledger rung).2⟩

theorem stopped_writes (t f : TaskId) (rung : w.Rung) :
    Writes nobody w (w.stopped t f) ∧ (w.stopped t f).Rung := by
  have freed : Writes nobody w (w.modifyTask f fun k => { k with watchers := [.report t f] }) := by
    by_cases there : f < w.tasks.length
    · refine .one ?_
      rw [ledger_tell w f (fun _ => [.report t f]) there]
      exact .tell _ (by simp [Ledger.Quiet, Job.ended?])
    · refine .of_eq (ledger_modifyTask w f _ fun k found => ?_)
      exact absurd (List.getElem?_eq_some_iff.1 found).1 there
  obtain ⟨writes, rung⟩ := nudges_writes (E := nobody) (cancel_nudges _ f) (freed.rung (fun _ => id) rung)
  exact ⟨freed.trans writes, rung⟩

theorem Aside.writes (h : Aside t w v) (rung : w.Rung) : Writes nobody w v ∧ v.Rung := by
  have still : ∀ {x : World}, Writes nobody w x → (∀ a ∈ x.alarms, a ∈ w.alarms) → Writes nobody w x ∧ x.Rung :=
    fun writes alarms => ⟨writes, writes.rung alarms rung⟩
  cases h with
  | alike h => exact still (.of_eq h.ledger) fun a => h.alarms ▸ id
  | files | call | process | launch => exact still (.of_eq rfl) fun _ => id
  | @enroll us there =>
    refine still (.enroll w t there) fun a => ?_
    obtain ⟨ks, js, eq, -⟩ := enroll_eq w t us
    rw [eq]
    exact id
  | @spawn _ _ _ op => exact still (.spawn w op nofun) fun _ => id
  | follow p => exact still (.spawn w (.follow p) (by simp [Ledger.Quiet, Job.ended?])) fun _ => id
  | stop f => exact stopped_writes t f rung
  | forestall p =>
    have begun : Writes nobody w (w.spawn (.follow p) fun f => [.report t f]).2 :=
      .spawn w (.follow p) (by simp [Ledger.Quiet, Job.ended?])
    obtain ⟨writes, rung⟩ := stopped_writes t w.tasks.length (begun.rung (fun _ => id) rung)
    exact ⟨begun.trans writes, rung⟩

theorem Deeds.writes (h : now.Deeds w v) (rung : w.Rung)
    (queued : ∀ u, now.Queued u → w.ledger.out u = true) : Writes nobody w v ∧ v.Rung := by
  induction h with
  | refl => exact ⟨.of_eq rfl, rung⟩
  | @tail x y _ step ih =>
    obtain ⟨writes, rung⟩ := ih
    have onward : ∀ {z : World}, Writes nobody x z ∧ z.Rung → Writes nobody w z ∧ z.Rung :=
      fun next => ⟨writes.trans next.1, next.2⟩
    cases step with
    | aside h => exact onward (h.writes rung)
    | slots | gauge | render | discard => exact onward ⟨.of_eq rfl, rung⟩
    | @call u waits =>
      have same := ledger_wake (w := x) (.value .unit) (Ledger.Kept.out writes (queued u waits) id)
      exact onward ⟨.of_eq same, rung.same (fun a ha => (List.mem_filter.1 ha).1) same⟩
    | @hire r =>
      have hired : Writes nobody x (x.spawn (.background r) fun b => [.forget r.slot b]).2 :=
        .spawn x _ (by simp [Ledger.Quiet, Job.ended?])
      exact onward ⟨hired, hired.rung (fun _ => id) rung⟩
    | cancel => exact onward (nudges_writes (cancel_nudges _ _) rung)

end
end World

/-! ### Landings -/

/-- A task that stops to wait does not end. -/
def Landing.Lasts : Landing → Prop
  | .park _ wait | .timed _ wait _ => wait ≠ .ended
  | _ => True

theorem Landing.IsCalm.lasts {l : Landing} (h : l.IsCalm) : l.Lasts := by
  cases l with
  | go | turn | finish => trivial
  | park => exact h.2.1
  | timed =>
    rcases h with rfl | ⟨f, rfl⟩
    · exact nofun
    · exact nofun

namespace World

section
variable {w v now : World} {t u : TaskId} {fs : List Frame} {s : Signal} {l : Landing} {ks : List Slot}

theorem Next.lasts (h : Next w t fs s l ks) : l.Lasts := by
  cases h with
  | turn _ h => exact h.calm.lasts
  | closes h =>
    cases h with
    | through => trivial
    | waits => exact nofun
  | rests h =>
    rcases h with rfl | ⟨n, rfl⟩
    · trivial
    · exact nofun
  | quieted h =>
    rcases h with ⟨-, rfl⟩ | ⟨-, rfl | rfl⟩
    · trivial
    · exact nofun
    · trivial
  | called h =>
    rcases h with ⟨-, rfl⟩ | ⟨-, rfl⟩
    · trivial
    · trivial
  | edits | misnamed | abandons | leaves | settles | drops | lets | breaks => trivial

theorem ledger_park (fs : List Frame) {wait : Wait} (awake : w.ledger.out t = true) (rung : w.Rung)
    (lasts : wait ≠ .ended) : (w.park t fs wait).ledger = w.ledger := by
  obtain ⟨k', found', awake'⟩ := ledger_out_iff.1 awake
  have yielded : ∀ {wait : Wait}, wait ≠ .ended → (w.yield t fs wait).ledger = w.ledger := by
    intro wait lasts
    refine ledger_modifyTask w t _ fun k found => ?_
    obtain rfl := Option.some.inj (found'.symm.trans found)
    simp [Task.ended, lasts, awake']
  rcases park_nudged w t fs wait with eq | nudges
  · exact eq ▸ yielded lasts
  · have cleared : ((w.yield t fs wait).clearCancel t).ledger = w.ledger :=
      (ledger_modifyTask _ t (fun k => { k with mustCancel := false }) fun _ _ => ⟨rfl, rfl⟩).trans
        (yielded lasts)
    have still : ((w.yield t fs wait).clearCancel t).Rung := fun a mem => cleared.symm ▸ rung a mem
    rw [(nudges.ledger still).1, cleared]

theorem ledger_land (awake : w.ledger.out t = true) (rung : w.Rung) (lasts : l.Lasts)
    (stays : ∀ r, l ≠ .finish r) : (w.land t l).ledger = w.ledger := by
  cases l with
  | go fs s => rfl
  | park fs wait => exact ledger_park fs awake rung lasts
  | turn fs =>
    have queued : ((w.park t fs .turn).enqueue (.resume t)).ledger = (w.park t fs .turn).ledger :=
      ledger_same rfl rfl (by simp [enqueue, Job.isNotice])
    exact queued.trans (ledger_park fs awake rung (by simp))
  | timed fs wait n =>
    have set : (w.setAlarm t n).Rung := by
      intro a mem
      rcases List.mem_append.1 mem with old | new
      · exact rung a old
      · rw [List.mem_singleton.1 new]
        exact awake
    exact ledger_park (w := w.setAlarm t n) fs awake set lasts
  | finish r => exact absurd rfl (stays r)

theorem land_writes (awake : w.ledger.out t = true) (rung : w.Rung) (lasts : l.Lasts) :
    Writes (· = t) w (w.land t l) := by
  cases l with
  | go | park | turn | timed => exact .of_eq (ledger_land awake rung lasts nofun)
  | finish r =>
    obtain ⟨f, ends, eq⟩ := finish_eq w t r
    refine .one ?_
    have closed : (w.land t (.finish r)).ledger = w.ledger.close t := by
      rw [World.land, eq]
      refine Ledger.ext (List.filter_append ..) (List.length_modify ..) (funext fun u => ?_)
        (funext fun u => ?_) rfl
      · simp only [ledger, Ledger.close, modifyTask, List.getElem?_modify]
        by_cases here : t = u
        · cases w.tasks[u]? <;> simp [here, Task.ended, ends]
        · have other : u ≠ t := fun same => here same.symm
          simp [here, other]
      · simp only [ledger, Ledger.close, modifyTask, List.getElem?_modify]
        by_cases here : t = u
        · cases w.tasks[u]? <;> simp [here, ends]
        · simp [here]
    rw [closed]
    exact .close _ rfl awake

/-! ### Inputs as rows of entries -/

/-- What taking a job off the queue writes. -/
theorem taken_writes {E : TaskId → Prop} {j : Job} {rest : List Job} (queue : w.queue = j :: rest) :
    Writes E w { w with queue := rest } := by
  cases notice : j.isNotice with
  | false => exact .of_eq (ledger_same rfl rfl (by simp [queue, notice]))
  | true =>
    refine .one ?_
    have first : w.ledger.notices = j :: rest.filter Job.isNotice := by simp [ledger, queue, notice]
    exact .drop first

theorem counted_writes {E : TaskId → Prop} {g : GroupId} {rest : List Job} (queue : w.queue = .joined g :: rest) :
    Writes E w (({ w with queue := rest } : World).counted g) := by
  refine .one ?_
  have first : w.ledger.notices = .joined g :: rest.filter Job.isNotice :=
    (congrArg (List.filter Job.isNotice) queue).trans (List.filter_cons_of_pos rfl)
  have learned : (({ w with queue := rest } : World).counted g).ledger =
      w.ledger.learn g (rest.filter Job.isNotice) := by
    refine Ledger.ext rfl rfl rfl rfl (funext fun h => ?_)
    simp only [ledger, Ledger.learn, counted, List.getElem?_modify]
    by_cases here : g = h
    · subst here
      cases w.groups[g]? <;> simp [Group.tally, Tally.none]
    · have other : h ≠ g := fun same => here same.symm
      simp [here, other]
  rw [learned]
  exact .learn first

theorem Stir.writes {i : Input} (h : Stir i w v) (rung : w.Rung) : Writes nobody w v ∧ v.Rung := by
  have still : ∀ {x : World}, Writes nobody w x → (∀ a ∈ x.alarms, a ∈ w.alarms) → Writes nobody w x ∧ x.Rung :=
    fun writes alarms => ⟨writes, writes.rung alarms rung⟩
  cases h with
  | alike h => exact still (.of_eq h.ledger) fun a => h.alarms ▸ id
  | later | child | enables | dates => exact still (.of_eq rfl) fun _ => id
  | taken queue => exact still (taken_writes queue) fun _ => id
  | counts queue => exact still (counted_writes queue) fun _ => id
  | nudge h => exact nudges_writes (.one h) rung
  | cancel => exact nudges_writes (cancel_nudges _ _) rung
  | spawn => exact still (.spawn w _ nofun) fun _ => id

theorem Stirs.writes {i : Input} (h : Stirs i w v) (rung : w.Rung) : Writes nobody w v := by
  have both : Writes nobody w v ∧ v.Rung := by
    induction h with
    | refl => exact ⟨.of_eq rfl, rung⟩
    | tail _ step ih =>
      obtain ⟨writes, rung⟩ := step.writes ih.2
      exact ⟨ih.1.trans writes, rung⟩
  exact both.1

end

section
variable {ms : List Mark} {b : Bench} {w v : World} {t u : TaskId} {fs : List Frame} {s : Signal}

theorem Flight.post_out (h : Flight ms b w) {p : Post} (found : (w.bench w.current).posts[u]? = some p)
    (awake : p.wait ≠ .ended) : w.ledger.out u = true := by
  by_cases runs : ∃ fs s, w.current = some (u, fs, s)
  · obtain ⟨k, found', running⟩ := (h.steady.midst.agrees u).2 runs
    exact ledger_out found' (by simp [running])
  · rw [other_post fun t fs s running => by rintro rfl; exact runs ⟨fs, s, running⟩] at found
    obtain ⟨k, found', rfl⟩ := Option.map_eq_some_iff.1 found
    exact ledger_out found' awake

theorem Flight.rung (h : Flight ms b w) : w.Rung := by
  intro a mem
  obtain ⟨p, found, waits | ⟨f, waits⟩⟩ := h.steady.midst.orderly.set a mem
  · exact h.post_out found (by simp [waits])
  · exact h.post_out found (by simp [waits])

theorem Flight.running_out (h : Flight ms b w) (running : w.current = some (t, fs, s)) :
    w.ledger.out t = true := by
  obtain ⟨k, found, runs⟩ := (h.steady.midst.agrees t).2 ⟨fs, s, running⟩
  exact ledger_out found (by simp [runs])

theorem Flight.queued_out (h : Flight ms b w) (queued : w.Queued u) : w.ledger.out u = true := by
  obtain ⟨y, slot, -, at_y, waits⟩ := queued
  obtain ⟨p, found, -, lock⟩ := h.steady.midst.orderly.queued y slot.lock u .waiting
    (by simp [bench, at_y]) waits
  exact h.post_out found (by simp [lock rfl])

/-- Whatever happens is a row of entries in the ledger, and nobody ends but by a step of its own. -/
theorem Flight.apply_writes (h : Flight ms b w) (i : Input) : Writes (w.Steps i) w (w.apply i) := by
  have happens := w.apply_happens i
  generalize w.apply i = v at *
  cases happens with
  | @moves t fs s running =>
    obtain ⟨x, l, deeds, next, eq⟩ := h.sane.reaches running
    obtain ⟨done, rung⟩ := deeds.writes h.rung fun u => h.queued_out
    have landed := land_writes (Ledger.Kept.out done (h.running_out running) id) rung next.lasts
    rw [eq]
    refine (done.mono fun _ => False.elim).trans (landed.mono ?_)
    rintro _ rfl
    exact ⟨rfl, fs, s, running⟩
  | @resumes t rest idle queue =>
    refine (taken_writes queue).trans ?_
    rcases resume_cases { w with queue := rest } t with same | ⟨k, found, turn, eq⟩
    · rw [same]
      exact .of_eq rfl
    · rw [eq]
      refine .of_eq (ledger_modifyTask { w with queue := rest } t _ fun k' found' => ?_)
      obtain rfl := Option.some.inj (found.symm.trans found')
      simp [Task.ended, Task.resumed, turn]
  | forgets idle queue => exact taken_writes queue
  | @launches op idle =>
    refine .one ?_
    have added := ledger_add w (k := ⟨[], .start op, .running, false, [], none⟩) nofun
    have same : (w.launch op).2.ledger = w.ledger.add [] := added
    rw [same]
    exact .add _ nofun
  | subscribes => exact .of_eq rfl
  | stirs stirred => exact (stirred.writes h.rung).mono fun _ => False.elim

/-- A task that has not ended does not, unless it is the one that takes the step. -/
theorem Flight.apply_out (h : Flight ms b w) (i : Input) (out : w.ledger.out u = true)
    (other : ¬ w.Steps i u) : (w.apply i).ledger.out u = true :=
  Ledger.Kept.out (h.apply_writes i) out other

theorem Flight.apply_balanced (h : Flight ms b w) (balanced : w.ledger.Balanced) (i : Input) :
    (w.apply i).ledger.Balanced := balanced.kept (h.apply_writes i)

theorem IsNew.balanced (new : w.IsNew) : w.ledger.Balanced := by
  have notices : w.ledger.notices = [] := by simp [ledger, new.queue]
  refine ⟨fun u => ?_, fun g u => ?_, fun g => ?_, fun g u => ?_, by simp [notices], fun u => ?_⟩
  all_goals simp [ledger, new.tasks, new.groups, new.queue, Tally.none]

/-- The ledger is balanced in every state that comes about. -/
theorem run_balanced (new : w.IsNew) {inputs : List Input} (allowed : ∀ i ∈ inputs, i.IsPublic) :
    (w.run inputs).ledger.Balanced := by
  have kept : ∀ (ms : List Mark) (v : World) (i : Input),
      Flight ms (w.bench none) v ∧ v.ledger.Balanced → i.IsPublic →
      Flight (ms ++ v.marks i) (w.bench none) (v.apply i) ∧ (v.apply i).ledger.Balanced :=
    fun _ _ i h given => ⟨h.1.apply given, h.1.apply_balanced h.2 i⟩
  exact (run_induct (I := fun ms v => Flight ms (w.bench none) v ∧ v.ledger.Balanced) kept
    ⟨new.flight, new.balanced⟩ inputs allowed).2

end
end World
end InkPreview.Live
