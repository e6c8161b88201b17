import InkPreview.Proofs.Live.Happens
/-!
Sane states. Every update and every request at work belongs to a slot that was opened for its
document, no document is open twice, and whatever has still to be begun may be asked for. Every
step keeps this: `apply_sane`.
-/
namespace InkPreview.Live

open World (Serves)

def Frame.Fits (xs : List Seat) : Frame → Prop
  | .notifying u _ => Serves xs u.slot u.doc
  | .acting _ u todo => Serves xs u.slot u.doc ∧ ∀ a ∈ todo, a.IsPublic
  | .quiet r | .queueing r | .holding r => Serves xs r.slot r.doc
  | _ => True

def Signal.Fits (xs : List Seat) : Signal → Prop
  | .start op => op.IsPublic ∨ (∃ p, op = .follow p) ∨ ∃ r, op = .background r ∧ Serves xs r.slot r.doc
  | _ => True

def AllFit (xs : List Seat) (fs : List Frame) : Prop := ∀ f ∈ fs, f.Fits xs

def Landing.Fits (xs : List Seat) : Landing → Prop
  | .go fs s => AllFit xs fs ∧ s.Fits xs
  | .park fs _ | .turn fs | .timed fs _ _ => AllFit xs fs
  | .finish _ => True

theorem Landing.Fits.frames {xs : List Seat} {l : Landing} (h : l.Fits xs) : AllFit xs l.frames := by
  cases l with
  | go => exact h.1
  | park | turn | timed => exact h
  | finish => exact fun _ => nofun

section
variable {xs ys : List Seat}

theorem Frame.Fits.mono {f : Frame} (h : f.Fits xs) (ages : Ages xs ys) : f.Fits ys := by
  cases f with
  | notifying | quiet | queueing | holding => exact Serves.mono h ages
  | acting => exact ⟨h.1.mono ages, h.2⟩
  | _ => trivial

theorem Signal.Fits.mono {s : Signal} (h : s.Fits xs) (ages : Ages xs ys) : s.Fits ys := by
  cases s with
  | start op =>
    rcases h with h | h | ⟨r, rfl, h⟩
    · exact .inl h
    · exact .inr (.inl h)
    · exact .inr (.inr ⟨r, rfl, h.mono ages⟩)
  | _ => trivial

theorem Signal.IsEnd.fits {s : Signal} (h : s.IsEnd) : s.Fits xs := by
  cases s with
  | start => exact h.elim
  | _ => trivial

namespace AllFit
variable {f : Frame} {fs gs : List Frame}

theorem cons (h : f.Fits xs) (h' : AllFit xs fs) : AllFit xs (f :: fs) := by
  simpa [AllFit] using ⟨h, h'⟩

theorem top (h : AllFit xs (f :: fs)) : f.Fits xs := h f List.mem_cons_self

theorem below (h : AllFit xs (f :: fs)) : AllFit xs fs := fun g hg => h g (List.mem_cons_of_mem f hg)

theorem mono (h : AllFit xs fs) (ages : Ages xs ys) : AllFit ys fs := fun f hf => (h f hf).mono ages

end AllFit

theorem Op.IsGiven.fits {op : Op} (h : op.IsGiven) : (Signal.start op).Fits xs := by
  rcases h with h | h
  · exact .inl h
  · exact .inr (.inl h)

theorem kept_fits {subscribers : List Subscriber} (given : ∀ s ∈ subscribers, s.IsPublic) :
    Frame.Kept subscribers (Frame.Fits xs) where
  simple f simple := by
    cases f with
    | notifying | acting | quiet | queueing | holding => exact simple.elim
    | _ => trivial
  told _ _ _ h := h
  called _ _ _ _ n _ h mem short :=
    ⟨h, fun a ha => given _ (List.mem_of_getElem? mem) n a (short.subset ha)⟩
  acted _ _ _ _ h short := ⟨h.1, fun a ha => h.2 a (short.subset ha)⟩

namespace World

theorem asked_public {fs : List Frame} (h : AllFit xs fs) (i : Nat) (u : Update) (todo : List Action)
    (mem : .acting i u todo ∈ fs) (op : Op) (asked : .ask op ∈ todo) : op.IsPublic :=
  (h _ mem).2 _ asked

theorem Turn.fits {w : World} {fs : List Frame} {s : Signal} {l : Landing} (h : Turn w fs s l)
    (subscribers : ∀ s ∈ w.subscribers, s.IsPublic) (hfs : AllFit xs fs) : l.Fits xs := by
  obtain ⟨frames, given⟩ := h.keeps (kept_fits subscribers) subscribers (asked_public hfs) hfs
  cases l with
  | go fs s =>
    refine ⟨frames, ?_⟩
    cases s with
    | start op => exact Op.IsGiven.fits given
    | value | fault | cancelled => trivial
  | park | turn | timed => exact frames
  | finish => trivial

end World
end

/-- Tasks that have grown fit where the old ones did and the new ones may begin. -/
theorem Grown.fits {licit : Op → Prop} {xs : List Seat} {ks js : List Task} (h : Grown licit ks js)
    (fit : World.Stacked (Frame.Fits xs) (Signal.Fits xs) ks) (starts : ∀ op, licit op → (Signal.start op).Fits xs) :
    World.Stacked (Frame.Fits xs) (Signal.Fits xs) js :=
  World.stacked_grown (fun _ calm => calm.ends.fits) h fit starts

namespace World

structure Sane (w : World) : Prop where
  subscribers : ∀ s ∈ w.subscribers, s.IsPublic
  distinct : Distinct w.seats
  frames : ∀ k ∈ w.tasks, AllFit w.seats k.frames
  signal : ∀ k ∈ w.tasks, k.signal.Fits w.seats
  running : ∀ t fs s, w.current = some (t, fs, s) → AllFit w.seats fs ∧ s.Fits w.seats
  members : ∀ s, ∀ u ∈ w.tasksOf s, u < w.tasks.length

theorem IsNew.sane {w : World} (new : w.IsNew) : w.Sane where
  subscribers := new.subscribers
  distinct := by simp [seats, new.slots, Distinct]
  frames := by simp [new.tasks]
  signal := by simp [new.tasks]
  running := by simp [new.current]
  members := by simp [tasksOf, new.slots]

/-! ### The running task -/

section
variable {w : World} {t : TaskId} {fs : List Frame} {s : Signal} {l : Landing} {ks : List Slot}

theorem seats_modify (xs : List Slot) (u : SlotId) {f : Slot → Slot} (same : ∀ k, (f k).seat = k.seat) :
    (xs.modify u f).map Slot.seat = xs.map Slot.seat := by
  rw [map_modify (g := id) xs same]
  refine List.ext_getElem? fun i => ?_
  rw [List.getElem?_modify]
  cases (xs.map Slot.seat)[i]? with
  | none => rfl
  | some a => by_cases here : u = i <;> simp [here]

/-- The seats that a step of the running task leaves, by what moves it. -/
def seatsAfter (w : World) : Signal → List Seat
  | .start (.edit doc _) => (w.bumped doc).seats
  | .start (.close doc) => (w.removeSlot doc).2.seats
  | _ => w.seats

/-- Only an edit and a closing change seats. -/
theorem Next.seats (h : Next w t fs s l ks) : ks.map Slot.seat = w.seatsAfter s := by
  have same : w.records.map Slot.seat = w.seats := (seats_of_records rfl).symm
  cases h with
  | @turn fs s l aside =>
    cases s with
    | start op =>
      obtain ⟨-, noEdit, noClose⟩ := aside
      cases op with
      | edit doc text => exact absurd rfl (noEdit doc text)
      | close doc => exact absurd rfl (noClose doc)
      | _ => exact same
    | value | fault | cancelled => exact same
  | rests | abandons | called | leaves | lets | breaks => exact same
  | @drops _ _ s ends =>
    cases s with
    | start => exact ends.elim
    | value | fault | cancelled => exact same
  | edits | misnamed =>
    rw [seats_modify]
    · exact (seats_of_records rfl).symm
    · exact fun _ => rfl
  | @closes _ doc => exact (seats_of_records (v := (w.removeSlot doc).2) rfl).symm
  | quieted =>
    rw [seats_modify]
    · exact same
    · intro k
      split
      · rfl
      · rfl
  | @settles _ _ _ o _ answered =>
    rw [seats_modify, answered]
    · cases o with
      | ok | error => exact same
    · exact fun _ => rfl

theorem seatsAfter_ages (distinct : Distinct w.seats) (s : Signal) :
    Ages w.seats (w.seatsAfter s) ∧ Distinct (w.seatsAfter s) := by
  unfold seatsAfter
  split
  · rename_i doc text
    obtain ⟨ages, distinct', -⟩ := bumped_seats distinct doc text
    exact ⟨ages, distinct'⟩
  · rename_i doc
    rw [(removeSlot_seats doc).2]
    split
    · exact ⟨.modify _ _ fun a _ => ⟨rfl, Nat.le_refl _, nofun⟩, distinct.modify _ fun a => ⟨rfl, nofun⟩⟩
    · exact ⟨.refl _, distinct⟩
  · exact ⟨.refl _, distinct⟩

/-- Seats age by every step. -/
theorem Next.ages (h : Next w t fs s l ks) (distinct : Distinct w.seats) :
    Ages w.seats (ks.map Slot.seat) ∧ Distinct (ks.map Slot.seat) := by
  rw [h.seats]
  exact seatsAfter_ages distinct s

/-- An edit serves its document, also as the request it becomes. -/
theorem Next.serves {name text : String} (h : Next w t fs (.start (.edit (.name name) text)) l ks)
    (distinct : Distinct w.seats) :
    Serves (ks.map Slot.seat) (w.editBegun (.name name) text).slot name := by
  obtain ⟨-, -, a, at_slot, -, same, -⟩ := bumped_seats distinct (.name name) text
  refine ⟨a, ?_, eq_name_of_same same⟩
  cases h with
  | turn aside => exact absurd rfl (aside.2.1 _ _)
  | misnamed unnamed => exact absurd rfl (unnamed _)
  | edits =>
    rw [seats_modify]
    · rw [← at_slot, seats_of_records rfl]
    · exact fun _ => rfl
  | @settles _ _ _ o _ answered =>
    cases o with
    | ok | error => cases answered
  | drops ends => exact ends.elim

theorem Next.fits (h : Next w t fs s l ks) (distinct : Distinct w.seats)
    (subscribers : ∀ s ∈ w.subscribers, s.IsPublic) (fits : AllFit w.seats fs) (fits' : s.Fits w.seats) :
    l.Fits (ks.map Slot.seat) := by
  have ages := (h.ages distinct).1
  have serves : ∀ name text, s = .start (.edit (.name name) text) →
      Serves (ks.map Slot.seat) (w.editBegun (.name name) text).slot name := by
    rintro name text rfl
    exact h.serves distinct
  have later : ∀ {gs : List Frame}, AllFit w.seats gs → AllFit (ks.map Slot.seat) gs := fun fits => fits.mono ages
  have served : ∀ {r : Request}, Serves w.seats r.slot r.doc → Serves (ks.map Slot.seat) r.slot r.doc :=
    fun served => served.mono ages
  have asks : ∀ {text : String}, (Signal.start (.compile text)).Fits (ks.map Slot.seat) :=
    .inl (.compile _)
  have below : ∀ {f : Frame} {gs : List Frame} {s : Signal}, AllFit w.seats (f :: gs) → s.IsEnd →
      (Landing.go gs s).Fits (ks.map Slot.seat) := fun fits ends => ⟨later fits.below, ends.fits⟩
  cases h with
  | turn _ turn =>
    have same : w.records.map Slot.seat = w.seats := (seats_of_records rfl).symm
    exact same.symm ▸ turn.fits subscribers fits
  | edits begun shown =>
    refine ⟨.cons ?_ (.cons trivial (later fits)), trivial⟩
    show Serves _ _ _
    rw [shown.slot, shown.doc, begun]
    exact begun ▸ serves _ _ rfl
  | misnamed => exact ⟨later fits, trivial⟩
  | closes h =>
    cases h with
    | through ends => exact ⟨later fits, ends.fits⟩
    | waits => exact .cons trivial (later fits)
  | @rests _ r _ h =>
    have given : Serves w.seats r.slot r.doc := by
      rcases fits' with given | ⟨_, eq⟩ | ⟨_, eq, given⟩
      · cases given
      · cases eq
      · cases eq
        exact given
    have quiet := AllFit.cons (f := .quiet r) (served given) (later fits)
    rcases h with rfl | ⟨n, rfl⟩
    · exact quiet
    · exact quiet
  | quieted h =>
    rcases h with ⟨-, rfl⟩ | ⟨-, rfl | rfl⟩
    · exact below fits trivial
    · exact .cons (served fits.top) (later fits.below)
    · exact ⟨.cons (served fits.top) (later fits.below), asks⟩
  | called h =>
    rcases h with ⟨-, rfl⟩ | ⟨-, rfl⟩
    · exact below fits trivial
    · exact ⟨.cons (served fits.top) (later fits.below), asks⟩
  | settles _ _ shown =>
    refine ⟨.cons ?_ (later fits.below), trivial⟩
    show Serves _ _ _
    rw [shown.slot, shown.doc]
    exact served fits.top
  | abandons | leaves | drops | lets | breaks => exact below fits trivial

end

/-! ### The tasks of slots -/

section
variable {w : World} {t : TaskId} {fs : List Frame} {s : Signal} {l : Landing} {ks : List Slot}

/-- The tasks that a record of slots lists for one of them. -/
def listed (ks : List Slot) (x : SlotId) : List TaskId := (ks[x]?.map (·.tasks)).getD []

theorem listed_records (w : World) (x : SlotId) : listed w.records x = w.tasksOf x := by
  simp only [listed, records_getElem?, tasksOf, Option.map_map]
  rfl

theorem listed_same (ks : List Slot) (s x : SlotId) {f : Slot → Slot} (same : ∀ k, (f k).tasks = k.tasks) :
    listed (ks.modify s f) x = listed ks x := by
  unfold listed
  rw [List.getElem?_modify]
  cases ks[x]? with
  | none => rfl
  | some k => by_cases here : s = x <;> simp [here, same]

theorem listed_more {ks : List Slot} {s : SlotId} (there : s < ks.length) (x : SlotId) {f : Slot → Slot}
    {more : List TaskId} (adds : ∀ k, (f k).tasks = k.tasks ++ more) :
    listed (ks.modify s f) x = listed ks x ++ if s = x then more else [] := by
  unfold listed
  rw [List.getElem?_modify]
  by_cases here : s = x
  · subst here
    simp [there, adds]
  · simp [here]

theorem listed_bumped (w : World) (doc : DocId) (x : SlotId) :
    listed (w.bumped doc).records x = w.tasksOf x := by
  rw [listed_records]
  have kept : ∀ (v : World) (s : SlotId) (n : Nat),
      (v.modifySlot s fun k => { k with generation := n }).tasksOf x = v.tasksOf x :=
    fun v s n => listed_same v.slots s x fun _ => rfl
  unfold World.bumped
  cases registered : w.slotOf? doc with
  | some s =>
    rw [ensureSlot_of_some registered]
    exact kept w s _
  | none =>
    rw [ensureSlot_of_none registered]
    dsimp only
    rw [kept]
    simp only [tasksOf, gaugeDocuments, List.getElem?_append]
    split
    · rfl
    · rename_i beyond
      rw [List.getElem?_eq_none (Nat.not_lt.1 beyond)]
      cases found : [Slot.new doc][x - w.slots.length]? with
      | none => rfl
      | some k =>
        obtain rfl : k = Slot.new doc := by simpa using List.mem_of_getElem? found
        rfl

/-- A slot that forgets a task lists the others as before. -/
theorem mem_tasksOf_forget {s x : SlotId} {u t : TaskId}
    (mem : t ∈ (w.modifySlot s fun k => { k with tasks := k.tasks.filter (· != u) }).tasksOf x) :
    t ∈ w.tasksOf x := by
  simp only [tasksOf, modifySlot, List.getElem?_modify] at mem ⊢
  cases found : w.slots[x]? with
  | none => simp [found] at mem
  | some k =>
    by_cases here : s = x
    · simp only [found, here] at mem
      exact (List.mem_filter.1 mem).1
    · simpa [found, here] using mem

/-- The task that the step the running task is about to make adds to a slot: that of an edit. -/
def hired (w : World) (s : Signal) (x : SlotId) : List TaskId :=
  match s with
  | .start (.edit doc text) => if (w.editBegun doc text).slot = x then (w.workerFor doc text).toList else []
  | _ => []

theorem hired_none (w : World) (noEdit : ∀ doc text, s ≠ .start (.edit doc text)) (x : SlotId) :
    w.hired s x = [] := by
  unfold hired
  split
  · exact absurd rfl (noEdit _ _)
  · rfl

/-- Slots list the tasks they did, and the task of an edit. -/
theorem Next.lists (h : Next w t fs s l ks) (distinct : Distinct w.seats) (x : SlotId) :
    listed ks x = w.tasksOf x ++ w.hired s x := by
  have still : (∀ doc text, s ≠ .start (.edit doc text)) → listed w.records x = w.tasksOf x ++ w.hired s x :=
    fun noEdit => by rw [hired_none w noEdit, listed_records, List.append_nil]
  have ended : s.IsEnd → ∀ doc text, s ≠ .start (.edit doc text) := by
    rintro ends doc text rfl
    exact ends
  cases h with
  | turn aside =>
    refine still ?_
    rintro doc text rfl
    exact aside.2.1 doc text rfl
  | @edits _ name text u e begun =>
    obtain ⟨-, -, a, at_slot, -⟩ := bumped_seats distinct (.name name) text
    have there : e.slot < (w.bumped (.name name)).records.length := by
      rw [begun, records, List.length_map, ← seats_length]
      exact (List.getElem?_eq_some_iff.1 at_slot).1
    let taken (k : Slot) : Slot :=
      { k with pending := e.worker, tasks := k.tasks ++ e.worker.toList, lastUpdate := some u }
    have adds : ∀ k, (taken k).tasks = k.tasks ++ e.worker.toList := fun _ => rfl
    rw [listed_more there x adds, listed_bumped]
    subst begun
    rfl
  | @misnamed _ doc text _ unnamed =>
    rw [listed_same, listed_bumped]
    · have nobody : w.workerFor doc text = none := by
        cases doc with
        | name name => exact absurd rfl (unnamed name)
        | number | truth => rfl
      simp [hired, nobody]
    · exact fun _ => rfl
  | @closes _ doc =>
    have nobody : w.hired (.start (.close doc)) x = [] := rfl
    rw [listed_records, (w.removeSlot_rest doc).2.2.2, nobody, List.append_nil]
  | quieted =>
    rw [listed_same, still (by simp)]
    intro k
    split
    · rfl
    · rfl
  | @settles _ r _ o u answered =>
    rw [listed_same]
    · refine still ?_
      rintro doc text rfl
      cases o with
      | ok | error => cases answered
    · exact fun _ => rfl
  | drops ends => exact still (ended ends)
  | rests | abandons | called | leaves | lets | breaks => exact still (by simp)

end

/-! ### Steps -/

/-- A state that a step can be taken to: sane, and with seats that have aged. -/
structure Onward (w v : World) : Prop where
  sane : v.Sane
  ages : Ages w.seats v.seats

namespace Sane
variable {w v : World} {t : TaskId} {fs : List Frame} {s : Signal}

theorem licit (h : w.Sane) (running : w.current = some (t, fs, s)) : s.IsLicit := by
  obtain ⟨-, fits⟩ := h.running t fs s running
  cases s with
  | start op =>
    rcases fits with given | ⟨p, rfl⟩ | ⟨r, rfl, -⟩
    · exact .inl (.inl given)
    · exact .inl (.inr ⟨p, rfl⟩)
    · exact .inr ⟨r, rfl⟩
  | value | fault | cancelled => trivial

theorem reaches (h : w.Sane) (running : w.current = some (t, fs, s)) : w.Reaches t fs s (w.move t fs s) :=
  move_reaches h.distinct h.members running (h.licit running)

theorem tasks (h : w.Sane) : ∀ k ∈ w.tasks, AllFit w.seats k.frames ∧ k.signal.Fits w.seats :=
  fun k hk => ⟨h.frames k hk, h.signal k hk⟩

theorem move (h : w.Sane) (running : w.current = some (t, fs, s)) : w.Onward (w.move t fs s) := by
  obtain ⟨fits, fits'⟩ := h.running t fs s running
  obtain ⟨x, l, deeds, next, eq⟩ := h.reaches running
  have landed := next.fits h.distinct h.subscribers fits fits'
  obtain ⟨ages, distinct⟩ := next.ages h.distinct
  have seats : (w.move t fs s).seats = x.records.map Slot.seat := by
    rw [eq, seats_land]
    exact seats_of_records rfl
  have hires : ∀ op, w.Begins op → (Signal.start op).Fits (x.records.map Slot.seat) := by
    rintro op (⟨-, -, given⟩ | ⟨p⟩ | ⟨t', fs', name, running', -, made⟩)
    · exact .inl given
    · exact .inr (.inl ⟨p, rfl⟩)
    · obtain ⟨rfl, rfl, rfl⟩ : t = t' ∧ fs = fs' ∧ s = _ := by simpa [running] using running'
      have serves := next.serves h.distinct
      rw [made]
      exact .inr (.inr ⟨_, rfl, serves⟩)
  have worked : Stacked (Frame.Fits (x.records.map Slot.seat)) (Signal.Fits (x.records.map Slot.seat)) x.tasks := by
    refine deeds.grown.fits (fun k hk => ?_) hires
    exact ⟨(h.frames k hk).mono ages, (h.signal k hk).mono ages⟩
  have landing : l.Fits (x.records.map Slot.seat) := landed
  have tasks := land_stacked (fun _ calm => calm.ends.fits) x t worked landing.frames
  have subscribers : (w.move t fs s).subscribers = w.subscribers := by
    rw [eq, subscribers_land, deeds.subscribers]
  have members : ∀ y, ∀ u ∈ (w.move t fs s).tasksOf y, u < (w.move t fs s).tasks.length := by
    intro y u mem
    rw [← listed_records, eq, records_land, next.lists h.distinct] at mem
    rcases List.mem_append.1 mem with old | new
    · have grown := (land_grown w.Begins x t l).length
      rw [l.put_length] at grown
      rw [eq]
      exact Nat.lt_of_lt_of_le (h.members y u old) (Nat.le_trans deeds.grown.length grown)
    · unfold hired at new
      split at new
      · rename_i doc text
        split at new
        · exact (worker_there t fs doc text (Option.mem_toList.1 new)).1
        · cases new
      · cases new
  refine ⟨⟨subscribers ▸ h.subscribers, seats ▸ distinct, ?_, ?_, ?_, members⟩, seats ▸ ages⟩
  · rw [seats, eq]
    exact fun k hk => (tasks k hk).1
  · rw [seats, eq]
    exact fun k hk => (tasks k hk).2
  · rw [seats, eq, land_current]
    intro u gs s' running'
    cases l with
    | go =>
      obtain ⟨rfl, rfl, rfl⟩ : _ ∧ _ ∧ _ := by simpa [Landing.now] using running'
      exact landing
    | park | turn | timed | finish => cases running'

theorem resume (h : w.Sane) (t : TaskId) : w.Onward (w.resume t) := by
  rcases w.resume_cases t with same | ⟨k, found, -, eq⟩
  · rw [same]
    exact ⟨h, .refl _⟩
  · have mem : k ∈ w.tasks := List.mem_of_getElem? found
    have grown : Grown (fun _ => False) w.tasks (w.modifyTask t Task.resumed).tasks :=
      .modify _ t (fun _ => rfl) fun _ => .inl rfl
    have fits := grown.fits h.tasks nofun
    rw [eq]
    refine ⟨⟨h.subscribers, h.distinct, fun k hk => (fits k hk).1, fun k hk => (fits k hk).2, ?_,
      fun s u mem => Nat.lt_of_lt_of_le (h.members s u mem) grown.length⟩, .refl _⟩
    intro u fs s running
    obtain ⟨rfl, rfl, rfl⟩ : _ ∧ _ ∧ _ := by simpa [World.go] using running
    refine ⟨h.frames k mem, ?_⟩
    split
    · trivial
    · exact h.signal k mem

theorem stirs (h : w.Sane) {i : Input} (allowed : i.IsPublic) (stirs : Stirs i w v) : w.Onward v := by
  obtain ⟨records, subscribers, -, current, -⟩ := stirs.rest
  have seats : v.seats = w.seats := by rw [seats_of_records records, ← seats_of_records rfl]
  have fits := stirs.grown.fits h.tasks fun op given => .inl (allowed.queues given)
  have members : ∀ s, ∀ u ∈ v.tasksOf s, u < v.tasks.length := by
    intro s u mem
    rw [← listed_records, records, listed_records] at mem
    exact Nat.lt_of_lt_of_le (h.members s u mem) stirs.grown.length
  refine ⟨⟨subscribers ▸ h.subscribers, seats ▸ h.distinct, ?_, ?_, ?_, members⟩, seats ▸ .refl _⟩
  · exact seats.symm ▸ fun k hk => (fits k hk).1
  · exact seats.symm ▸ fun k hk => (fits k hk).2
  · rw [seats, current]
    exact h.running

/-- Whatever happens to a sane state, sane it stays, and its seats age. -/
theorem apply (h : w.Sane) {i : Input} (allowed : i.IsPublic) : w.Onward (w.apply i) := by
  have happens := w.apply_happens i
  generalize w.apply i = v at *
  cases happens with
  | moves running => exact h.move running
  | @resumes t rest idle queue =>
    have taken : ({ w with queue := rest } : World).Sane :=
      ⟨h.subscribers, h.distinct, h.frames, h.signal, h.running, h.members⟩
    obtain ⟨sane, ages⟩ := taken.resume t
    exact ⟨sane, ages⟩
  | @forgets s u rest idle queue =>
    have seats : (({ w with queue := rest } : World).modifySlot s fun k =>
        { k with tasks := k.tasks.filter (· != u) }).seats = w.seats :=
      seats_modifySlot (w := { w with queue := rest }) s fun _ => rfl
    refine ⟨⟨h.subscribers, seats ▸ h.distinct, ?_, ?_, ?_, ?_⟩, seats ▸ .refl _⟩
    · exact seats.symm ▸ h.frames
    · exact seats.symm ▸ h.signal
    · exact seats.symm ▸ h.running
    · intro y t mem
      exact h.members y t (mem_tasksOf_forget mem)
  | @launches op idle =>
    have grown : Grown Op.IsPublic w.tasks (w.launch op).2.tasks := .append _ rfl rfl allowed
    have fits := grown.fits h.tasks fun op given => .inl given
    refine ⟨⟨h.subscribers, h.distinct, fun k hk => (fits k hk).1, fun k hk => (fits k hk).2, ?_,
      fun s u mem => Nat.lt_of_lt_of_le (h.members s u mem) grown.length⟩, .refl _⟩
    intro t fs s running
    obtain ⟨rfl, rfl, rfl⟩ : _ ∧ _ ∧ _ := by simpa [launch] using running
    exact ⟨fun _ => nofun, .inl allowed⟩
  | @subscribes s =>
    refine ⟨⟨?_, h.distinct, h.frames, h.signal, h.running, h.members⟩, .refl _⟩
    intro x hx
    rcases List.mem_append.1 hx with old | new
    · exact h.subscribers x old
    · rw [List.mem_singleton.1 new]
      exact allowed
  | stirs stirred => exact h.stirs allowed stirred

/-- Whatever happens, the seats are as they were, or as the edit or the closing that begins leaves them. -/
theorem apply_seats (h : w.Sane) (i : Input) : (w.apply i).seats = w.seats ∨
    i = .tick ∧ ∃ t fs s, w.current = some (t, fs, s) ∧ (w.apply i).seats = w.seatsAfter s := by
  have happens := w.apply_happens i
  generalize w.apply i = v at *
  cases happens with
  | @moves t fs s running =>
    obtain ⟨x, l, -, next, eq⟩ := h.reaches running
    refine .inr ⟨rfl, t, fs, s, running, ?_⟩
    rw [eq, seats_land, ← next.seats]
    exact seats_of_records rfl
  | @resumes t rest =>
    left
    obtain ⟨ks, cur, eq⟩ := resume_eq { w with queue := rest } t
    rw [eq]
    rfl
  | @forgets x u rest =>
    exact .inl (seats_modifySlot (w := { w with queue := rest }) x fun _ => rfl)
  | launches | subscribes => exact .inl rfl
  | stirs stirred =>
    left
    rw [seats_of_records stirred.rest.1, ← seats_of_records rfl]

theorem tick (h : w.Sane) : w.Onward w.tick := h.apply (i := .tick) trivial

theorem run (h : w.Sane) {inputs : List Input} (allowed : ∀ i ∈ inputs, i.IsPublic) :
    w.Onward (w.run inputs) := by
  induction inputs generalizing w with
  | nil => exact ⟨h, .refl _⟩
  | cons i rest ih =>
    obtain ⟨sane, ages⟩ := h.apply (allowed i (by simp))
    obtain ⟨sane', ages'⟩ := ih sane fun j hj => allowed j (List.mem_cons_of_mem i hj)
    exact ⟨sane', ages.trans ages'⟩

end Sane
end World
end InkPreview.Live
