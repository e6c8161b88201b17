import InkPreview.Proofs.Library
import InkPreview.Proofs.Live.Closing
import InkPreview.Proofs.Live.Numbering
import InkPreview.Proofs.Live.Stacks
import InkPreview.Proofs.Web
/-!
Messages. One that asks for nothing that can be done gets its one reply and leaves library, slots and previews
alone; one that has a document edited or closed under a name that is text comes to its end without a fault, as
long as its sender can be sent to. What is left raises: text that no reader gets through and names that are no
keys at once and with nothing changed, and names that are not text after the text has been stored and numbered.
Main statement: `messages_handled`.
-/
namespace InkPreview.Live

def Event.sent? : Event → Option (ClientId × Web.Message)
  | .sent _ c m => some (c, m)
  | _ => none

namespace World

/-! ### What a message meets -/

/-- A message of which nothing comes but a reply. -/
inductive Replies (w : World) (data : String) : Web.Message → Prop
  | refused {reason : String} (asks : Web.Ask.ofText data = .ok (.refused reason)) : Replies w data (.error reason)
  | unknown {doc : Json} {id : DocId} (asks : Web.Ask.ofText data = .ok (.view doc))
      (named : DocId.ofJson doc = .ok id) (missing : w.library.content? id = none) :
      Replies w data (.error ("unknown document: " ++ doc.text))
  | unnamed {doc : Json} (asks : Web.Ask.ofText data = .ok (.close doc)) (missing : doc.isGiven = false) :
      Replies w data (.closeResult doc)
  | idle {doc : Json} {typeName : String} (asks : Web.Ask.ofText data = .ok (.close doc)) (given : doc.isGiven = true)
      (keyless : DocId.ofJson doc = .error typeName)
      (idle : w.openSlots.isEmpty = true ∧ w.gallery.previews.entries.isEmpty = true) :
      Replies w data (.closeResult doc)
  | snippet {s : Snippet} (asks : Web.Ask.ofText data = .ok (.snippet s)) : Replies w data (.snippet s)

/-- A message that raises at once: no reader gets through it, or it names a document by what is no key. -/
inductive Throws (w : World) (data : String) : Fault → Prop
  | unread {f : Json.Fault} (unread : Web.Ask.ofText data = .error f) : Throws w data (.json f)
  | edit {doc : Json} {text typeName : String} (asks : Web.Ask.ofText data = .ok (.edit doc text))
      (keyless : DocId.ofJson doc = .error typeName) : Throws w data (.nameNotKey typeName)
  | view {doc : Json} {typeName : String} (asks : Web.Ask.ofText data = .ok (.view doc))
      (keyless : DocId.ofJson doc = .error typeName) : Throws w data (.nameNotKey typeName)
  | close {doc : Json} {typeName : String} (asks : Web.Ask.ofText data = .ok (.close doc)) (given : doc.isGiven = true)
      (keyless : DocId.ofJson doc = .error typeName)
      (busy : ¬ (w.openSlots.isEmpty = true ∧ w.gallery.previews.entries.isEmpty = true)) :
      Throws w data (.nameNotKey typeName)

/-- A message that has a document edited, under the frames `pre`. -/
inductive Drafts (w : World) (c : ClientId) (data : String) : List Frame → DocId → String → Prop
  | edit {doc : Json} {id : DocId} {text : String} (asks : Web.Ask.ofText data = .ok (.edit doc text))
      (named : DocId.ofJson doc = .ok id) : Drafts w c data [.acknowledging c id] id text
  | view {doc : Json} {id : DocId} {text : String} (asks : Web.Ask.ofText data = .ok (.view doc))
      (named : DocId.ofJson doc = .ok id) (stored : w.library.content? id = some text) : Drafts w c data [] id text

/-- A message that has a document closed. -/
structure Dismisses (data : String) (doc : Json) (id : DocId) : Prop where
  asks : Web.Ask.ofText data = .ok (.close doc)
  given : doc.isGiven = true
  named : DocId.ofJson doc = .ok id

/-- The same documents are stored, the same slots are open, and the same pages are shown. -/
structure Undisturbed (w v : World) : Prop where
  library : v.library = w.library
  slots : v.slots = w.slots
  gallery : v.gallery = w.gallery

/-- What has been sent to clients, newest first. -/
def sent (w : World) : List (ClientId × Web.Message) := w.history.filterMap Event.sent?

def CanSend (w : World) (c : ClientId) : Prop := ∃ k, w.connections[c]? = some k ∧ k.link = .sound

/-- All along the inputs the client can be sent to, and what the task has begun above `base` is not over. -/
def Engaged (w : World) (c : ClientId) (t : TaskId) (base : List Frame) (inputs : List Input) : Prop :=
  ∀ n < inputs.length, (w.run (inputs.take n)).CanSend c ∧
    ∀ s, s.IsEnd → (w.run (inputs.take n)).current ≠ some (t, base, s)

/-- The task may come back to `base` with the signal, the client being one that can be sent to until then. -/
def Resolves (w : World) (c : ClientId) (t : TaskId) (base : List Frame) (s : Signal) : Prop :=
  ∃ mid, (∀ i ∈ mid, i.IsPublic) ∧ w.Engaged c t base mid ∧ s.IsEnd ∧ (w.run mid).current = some (t, base, s)

/-- Whatever the task does until it is back at `base`, the client being one that can be sent to, disturbs nothing,
and as soon as anything is sent, which is then the message, it is back. -/
def OnlySends (w : World) (c : ClientId) (t : TaskId) (base : List Frame) (m : Web.Message) : Prop :=
  ∀ mid v, (∀ i ∈ mid, i.IsPublic) → w.Engaged c t base (mid ++ [.tick]) → v = w.run mid → v.Steps .tick t →
    v.Undisturbed v.tick ∧
      (v.tick.sent = v.sent ∨ v.tick.sent = (c, m) :: v.sent ∧ v.tick.current = some (t, base, .value .unit))

section
variable {ms : List Mark} {b : Bench} {w v : World} {t : TaskId} {fs base pre : List Frame} {s : Signal} {c : ClientId}
  {data : String} {m : Web.Message}

/-- Whatever a client sends is one of these. -/
theorem message_met (w : World) (c : ClientId) (data : String) : (∃ m, w.Replies data m) ∨ (∃ f, w.Throws data f) ∨
    (∃ pre id text, w.Drafts c data pre id text) ∨ ∃ doc id, Dismisses data doc id := by
  cases asks : Web.Ask.ofText data with
  | error f => exact .inr (.inl ⟨_, .unread asks⟩)
  | ok a =>
    cases a with
    | refused reason => exact .inl ⟨_, .refused asks⟩
    | snippet s => exact .inl ⟨_, .snippet asks⟩
    | edit doc text =>
      cases named : DocId.ofJson doc with
      | error ty => exact .inr (.inl ⟨_, .edit asks named⟩)
      | ok id => exact .inr (.inr (.inl ⟨_, _, _, .edit asks named⟩))
    | view doc =>
      cases named : DocId.ofJson doc with
      | error ty => exact .inr (.inl ⟨_, .view asks named⟩)
      | ok id =>
        cases stored : w.library.content? id with
        | none => exact .inl ⟨_, .unknown asks named stored⟩
        | some text => exact .inr (.inr (.inl ⟨_, _, _, .view asks named stored⟩))
    | close doc =>
      cases given : doc.isGiven with
      | false => exact .inl ⟨_, .unnamed asks given⟩
      | true =>
        cases named : DocId.ofJson doc with
        | ok id => exact .inr (.inr (.inr ⟨_, _, asks, given, named⟩))
        | error ty =>
          by_cases idle : w.openSlots.isEmpty = true ∧ w.gallery.previews.entries.isEmpty = true
          · exact .inl ⟨_, .idle asks given named idle⟩
          · exact .inr (.inl ⟨_, .close asks given named idle⟩)

/-! ### The first step -/

theorem Undisturbed.refl (w : World) : w.Undisturbed w := ⟨rfl, rfl, rfl⟩

/-- A message that is only replied to turns into the sending of its reply. -/
theorem Replies.begins (h : w.Replies data m) (running : w.current = some (t, base, .start (.handle c data))) :
    w.Undisturbed w.tick ∧ w.tick.sent = w.sent ∧ w.tick.tasks = w.tasks ∧
      w.tick.current = some (t, base, .start (.send c m)) := by
  have tick : w.tick = w.beginHandle t base c data := tick_running running
  cases h with
  | refused asks | snippet asks =>
    simp only [beginHandle, asks, ask] at tick
    rw [tick]
    exact ⟨⟨rfl, rfl, rfl⟩, rfl, rfl, rfl⟩
  | unknown asks named missing =>
    simp only [beginHandle, asks, ask, named, missing] at tick
    rw [tick]
    exact ⟨⟨rfl, rfl, rfl⟩, rfl, rfl, rfl⟩
  | unnamed asks missing =>
    simp only [beginHandle, asks, ask, missing] at tick
    rw [tick]
    exact ⟨⟨rfl, rfl, rfl⟩, rfl, rfl, rfl⟩
  | idle asks given keyless idle =>
    simp only [beginHandle, asks, ask, given, keyless, closeUnnamed, idle.1, idle.2] at tick
    rw [tick]
    exact ⟨⟨rfl, rfl, rfl⟩, rfl, rfl, rfl⟩

theorem Throws.raises {f : Fault} (h : w.Throws data f)
    (running : w.current = some (t, base, .start (.handle c data))) :
    w.Undisturbed w.tick ∧ w.tick.sent = w.sent ∧ w.tick.current = some (t, base, .fault f) := by
  have tick : w.tick = w.beginHandle t base c data := tick_running running
  cases h with
  | unread unread =>
    simp only [beginHandle, unread] at tick
    rw [tick]
    exact ⟨⟨rfl, rfl, rfl⟩, rfl, rfl⟩
  | edit asks keyless | view asks keyless =>
    simp only [beginHandle, asks, ask, keyless] at tick
    rw [tick]
    exact ⟨⟨rfl, rfl, rfl⟩, rfl, rfl⟩
  | close asks given keyless busy =>
    have busy : (w.openSlots.isEmpty && w.gallery.previews.entries.isEmpty) = false := by simpa using busy
    simp only [beginHandle, asks, ask, given, keyless, closeUnnamed, busy] at tick
    rw [tick]
    exact ⟨⟨rfl, rfl, rfl⟩, rfl, rfl⟩

theorem Drafts.begins {id : DocId} {text : String} (h : w.Drafts c data pre id text)
    (running : w.current = some (t, base, .start (.handle c data))) :
    w.tick.current = some (t, pre ++ base, .start (.edit id text)) ∧ w.tick.slots = w.slots ∧
      w.tick.library.content? id = some text := by
  have tick : w.tick = w.beginHandle t base c data := tick_running running
  cases h with
  | edit asks named =>
    simp only [beginHandle, asks, ask, named] at tick
    rw [tick]
    have given := DocId.isGiven_ofJson named (Web.Ask.ofText_edit asks)
    refine ⟨rfl, rfl, ?_⟩
    rw [show ((w.store id text).call t _ _).library = (w.library.setContent id text).2 from rfl,
      Library.content?_setContent w.library given, DocId.same_self]
    rfl
  | view asks named stored =>
    simp only [beginHandle, asks, ask, named, stored] at tick
    rw [tick]
    exact ⟨rfl, rfl, stored⟩

theorem Dismisses.begins {doc : Json} {id : DocId} (h : Dismisses data doc id)
    (running : w.current = some (t, base, .start (.handle c data))) :
    w.tick.current = some (t, .confirming c doc :: base, .start (.close id)) := by
  have tick : w.tick = w.beginHandle t base c data := tick_running running
  simp only [beginHandle, h.asks, ask, h.given, h.named] at tick
  rw [tick]
  rfl

/-! ### Sending -/

theorem transmit_sound (sound : w.CanSend c) :
    w.transmit t fs c m = (w.emit (.sent w.clock c m)).ret t fs .unit := by
  obtain ⟨k, found, link⟩ := sound
  simp only [transmit, found, link]

/-- A message to a client that it can be sent to goes out at once, or the task waits as long as the sending takes. -/
theorem beginSend_sound (t : TaskId) (fs : List Frame) (m : Web.Message) (sound : w.CanSend c) :
    (∃ x : World, w.beginSend t fs c m = (x.emit (.sent x.clock c m)).ret t fs .unit ∧ w.Undisturbed x ∧
      x.sent = w.sent ∧ x.tasks = w.tasks) ∨
    ∃ (x : World) (d : Nat), w.beginSend t fs c m = x.sleep t (.sending c m :: fs) d ∧ w.Undisturbed x ∧
      x.sent = w.sent ∧ x.tasks = w.tasks := by
  obtain ⟨k, found, link⟩ := sound
  let x := w.modifyConnection c fun k => { k with sends := k.sends + 1 }
  have sound : x.CanSend c := by
    refine ⟨{ k with sends := k.sends + 1 }, ?_, link⟩
    simp [x, modifyConnection, found]
  simp only [beginSend, found]
  cases k.pace k.sends with
  | none => exact .inl ⟨x, transmit_sound (w := x) sound, ⟨rfl, rfl, rfl⟩, rfl, rfl⟩
  | some d => exact .inr ⟨x, d, rfl, ⟨rfl, rfl, rfl⟩, rfl, rfl⟩

theorem sent_nudges {H : TaskId → Prop} (h : Nudges H w v) : v.sent = w.sent := h.same fun _ _ _ _ _ _ => rfl

/-- Nothing happens to the locks as a task is cancelled that waits neither for a lock nor for a group. -/
theorem slots_cancel (alone : ∀ k, w.tasks[t]? = some k → (∀ s, k.wait ≠ .lock s) ∧ ∀ g, k.wait ≠ .group g) :
    (w.cancel t).slots = w.slots := by
  unfold cancel cancelling cancelWith
  split
  · rfl
  · rename_i k found
    obtain ⟨unlocked, single⟩ := alone k found
    cases wait : k.wait with
    | lock s => exact absurd wait (unlocked s)
    | group g => exact absurd wait (single g)
    | ended | turn | running | alarm | message | follower => rfl

/-- A task that waits for no lock leaves the locks alone as it stops to wait. -/
theorem slots_park (w : World) (t : TaskId) (fs : List Frame) {wait : Wait} (alone : ∀ s, wait ≠ .lock s)
    (single : ∀ g, wait ≠ .group g) : (w.park t fs wait).slots = w.slots := by
  rcases park_cases w t fs wait with eq | ⟨g, grouped, -⟩ | ⟨-, -, eq⟩
  · rw [eq]
    rfl
  · exact absurd grouped (single g)
  · rw [eq]
    refine (slots_cancel (w := (w.yield t fs wait).clearCancel t) fun k found => ?_).trans rfl
    simp only [clearCancel, yield, modifyTask, List.getElem?_modify_eq, Option.map_eq_map,
      Option.map_map, Option.map_eq_some_iff] at found
    obtain ⟨k', -, rfl⟩ := found
    exact ⟨alone, single⟩

theorem sleep_undisturbed (w : World) (t : TaskId) (fs : List Frame) (micros : Int) :
    w.Undisturbed (w.sleep t fs micros) ∧ (w.sleep t fs micros).sent = w.sent := by
  have parks : ∀ (x : World) (wait : Wait), (∀ s, wait ≠ .lock s) → (∀ g, wait ≠ .group g) →
      x.Undisturbed (x.park t fs wait) ∧ (x.park t fs wait).sent = x.sent := fun x wait alone single =>
    ⟨⟨park_same Nudges.library (fun _ _ _ _ _ => rfl) x t fs wait, slots_park x t fs alone single,
      park_same Nudges.gallery (fun _ _ _ _ _ => rfl) x t fs wait⟩,
      park_same sent_nudges (fun _ _ _ _ _ => rfl) x t fs wait⟩
  unfold sleep
  split
  · obtain ⟨⟨library, slots, gallery⟩, sent⟩ := parks w .turn nofun nofun
    exact ⟨⟨library, slots, gallery⟩, sent⟩
  · obtain ⟨⟨library, slots, gallery⟩, sent⟩ := parks (w.setAlarm t micros.toNat) .alarm nofun nofun
    exact ⟨⟨library, slots, gallery⟩, sent⟩

theorem sleep_land (w : World) (t : TaskId) (fs : List Frame) (micros : Int) : ∃ l, w.sleep t fs micros = w.land t l ∧
    (l = .turn fs ∨ ∃ n, l = .timed fs .alarm n) := by
  unfold sleep
  split
  · exact ⟨.turn fs, rfl, .inl rfl⟩
  · exact ⟨.timed fs .alarm micros.toNat, rfl, .inr ⟨_, rfl⟩⟩

/-! ### A message that is only replied to -/

/-- Places at which a reply is sent. -/
inductive Replying (c : ClientId) (m : Web.Message) : List Frame → Signal → Prop
  | begins : Replying c m [] (.start (.send c m))
  | sending {s : Signal} (calm : s.IsCalm) : Replying c m [.sending c m] s
  | done : Replying c m [] (.value .unit)
  | cancelled : Replying c m [] .cancelled

theorem Replying.calm {s' : Signal} (h : Replying c m pre s) (above : pre ≠ []) (calm : s'.IsCalm) :
    Replying c m pre s' := by
  cases h with
  | begins | done | cancelled => exact absurd rfl above
  | sending => exact .sending calm

/-- A step of a reply disturbs nothing, and once it has been sent the reply is over. -/
theorem Replying.step (h : Replying c m pre s) (sound : v.CanSend c) (there : t < v.tasks.length)
    (busy : pre = [] → ¬ s.IsEnd) (running : v.current = some (t, pre ++ base, s)) :
    (∃ (x : World) (l : Landing), v.tick = x.land t l ∧ t < x.tasks.length ∧ l.Puts (Replying c m) base) ∧
      v.Undisturbed v.tick ∧
      (v.tick.sent = v.sent ∨ v.tick.sent = (c, m) :: v.sent ∧ v.tick.current = some (t, base, .value .unit)) := by
  have tick := tick_running running
  have sends : ∀ x : World, v.Undisturbed x → x.sent = v.sent → x.tasks = v.tasks →
      v.tick = (x.emit (.sent x.clock c m)).ret t base .unit →
      (∃ (x : World) (l : Landing), v.tick = x.land t l ∧ t < x.tasks.length ∧ l.Puts (Replying c m) base) ∧
        v.Undisturbed v.tick ∧
        (v.tick.sent = v.sent ∨ v.tick.sent = (c, m) :: v.sent ∧ v.tick.current = some (t, base, .value .unit)) := by
    intro x same sent tasks eq
    refine ⟨⟨x.emit (.sent x.clock c m), .go base (.value .unit), eq, tasks ▸ there, [], rfl, .done⟩, ?_, .inr ?_⟩
    · rw [eq]
      exact ⟨same.library, same.slots, same.gallery⟩
    · rw [eq]
      exact ⟨congrArg ((c, m) :: ·) sent, rfl⟩
  cases h with
  | begins =>
    rcases beginSend_sound t base m sound with ⟨x, eq, same, sent, tasks⟩ | ⟨x, d, eq, same, sent, tasks⟩
    · exact sends x same sent tasks (tick.trans eq)
    · obtain ⟨⟨library, slots, gallery⟩, still⟩ := sleep_undisturbed x t (.sending c m :: base) d
      obtain ⟨l, landed, rest⟩ := sleep_land x t (.sending c m :: base) d
      have eq := tick.trans eq
      have puts : l.Puts (Replying c m) base := by
        rcases rest with rfl | ⟨n, rfl⟩
        · exact ⟨[.sending c m], List.cons_ne_nil _ _, rfl, fun _ => .sending⟩
        · exact ⟨[.sending c m], List.cons_ne_nil _ _, rfl, fun _ => .sending⟩
      refine ⟨⟨x, l, eq.trans landed, tasks ▸ there, puts⟩, ?_, .inl ?_⟩
      · rw [eq]
        exact ⟨library.trans same.library, slots.trans same.slots, gallery.trans same.gallery⟩
      · rw [eq, still, sent]
  | sending calm =>
    cases s with
    | start | fault => exact calm.elim
    | value => exact sends v (.refl v) rfl rfl (tick.trans (transmit_sound sound))
    | cancelled =>
      refine ⟨⟨v, .go base .cancelled, tick, there, [], rfl, .cancelled⟩, ?_, .inl ?_⟩
      · rw [tick]
        exact ⟨rfl, rfl, rfl⟩
      · rw [tick]
        rfl
  | done | cancelled => exact absurd trivial (busy rfl)

/-! ### A message that has something done -/

/-- Where an edit that a message has made goes back to. -/
def IsHome (c : ClientId) (pre : List Frame) : Prop := pre = [] ∨ ∃ doc, pre = [.acknowledging c doc]

/-- Places of a message that has a document edited, or closed once the closing has begun, and is replied to; `lapse`
says which faults may come of it. -/
inductive Serving (c : ClientId) (lapse : Fault → Prop) : List Frame → Signal → Prop
  | rests {s : Signal} (calm : s.IsCalm) : Serving c lapse [] s
  | lapsed {f : Fault} (lapses : lapse f) : Serving c lapse [] (.fault f)
  | replies {m : Web.Message} : Serving c lapse [] (.start (.send c m))
  | sending {m : Web.Message} {s : Signal} (calm : s.IsCalm) : Serving c lapse [.sending c m] s
  | edits {pre : List Frame} (home : IsHome c pre) {name text : String} :
      Serving c lapse pre (.start (.edit (.name name) text))
  /-- Whatever the subscribers that are told do goes on above. -/
  | tells {pre more : List Frame} (home : IsHome c pre) {u : Update} {js : List Nat} {g : Nat} {s : Signal} :
      Serving c lapse (more ++ .notifying u js :: .issued g :: pre) s
  | told {pre : List Frame} (home : IsHome c pre) {g : Nat} {s : Signal} (calm : s.IsCalm) :
      Serving c lapse (.issued g :: pre) s
  | acknowledges {doc : DocId} {s : Signal} (calm : s.IsCalm) : Serving c lapse [.acknowledging c doc] s
  | closing {doc : Json} {id : DocId} {n : Nat} {s : Signal} (calm : s.IsCalm)
      (lapses : (∀ name, id ≠ .name name) → lapse (.nameNotText id.typeName)) :
      Serving c lapse [.closing id n, .confirming c doc] s
  | confirms {doc : Json} {s : Signal} (calm : s.IsCalm) : Serving c lapse [.confirming c doc] s
  | broken {doc : Json} {f : Fault} (lapses : lapse f) : Serving c lapse [.confirming c doc] (.fault f)

variable {lapse : Fault → Prop}

theorem Serving.calm {s' : Signal} (h : Serving c lapse pre s) (above : pre ≠ []) (calm : s.IsCalm)
    (calm' : s'.IsCalm) : Serving c lapse pre s' := by
  cases h with
  | rests | lapsed | replies => exact absurd rfl above
  | edits | broken => exact calm.elim
  | sending => exact .sending calm'
  | tells home => exact .tells home
  | told home => exact .told home calm'
  | acknowledges => exact .acknowledges calm'
  | closing _ lapses => exact .closing calm' lapses
  | confirms => exact .confirms calm'

theorem Serving.back (h : Serving c lapse [] s) (ends : s.IsEnd) : s.IsCalm ∨ ∃ f, lapse f ∧ s = .fault f := by
  generalize none : ([] : List Frame) = pre at h
  cases h with
  | rests calm => exact .inl calm
  | lapsed lapses => exact .inr ⟨_, lapses, rfl⟩
  | replies | edits => exact ends.elim
  | tells => simp at none
  | sending | told | acknowledges | closing | confirms | broken => cases none

/-- What is above the delivery of the update stays so, whatever is done there. -/
theorem above_serving {l : Landing} {u : Update} {js : List Nat} {g : Nat} (home : IsHome c pre)
    (above : l.Above (.notifying u js :: .issued g :: (pre ++ base))) : l.Puts (Serving c lapse) base := by
  have puts : ∀ {fs : List Frame}, .notifying u js :: .issued g :: (pre ++ base) <:+ fs →
      ∃ pre', pre' ≠ [] ∧ fs = pre' ++ base ∧ ∀ s, Serving c lapse pre' s := by
    rintro fs ⟨more, rfl⟩
    exact ⟨more ++ .notifying u js :: .issued g :: pre, by simp, by simp, fun s => .tells home⟩
  cases l with
  | go fs s =>
    obtain ⟨pre', -, eq, at_⟩ := puts above
    exact ⟨pre', eq, at_ s⟩
  | park | turn | timed =>
    obtain ⟨pre', more, eq, at_⟩ := puts above
    exact ⟨pre', more, eq, fun s _ => at_ s⟩
  | finish => exact above

/-- The landings of a message that has something done. -/
theorem home_puts (home : IsHome c pre) (base : List Frame) {g : Nat} (calm : s.IsCalm) :
    (Landing.go (.issued g :: (pre ++ base)) s).Puts (Serving c lapse) base :=
  ⟨.issued g :: pre, rfl, .told home calm⟩

/-- The delivery of an edit goes on, or the edit hands back its number. -/
theorem tells_puts {more : List Frame} {u : Update} {js : List Nat} {g : Nat} {l : Landing} {ks : List Slot}
    (home : IsHome c pre) (next : Next w t (more ++ .notifying u js :: .issued g :: (pre ++ base)) s l ks) :
    l.Puts (Serving c lapse) base := by
  cases more with
  | cons f more => exact above_serving home (next.below.trans (List.suffix_append _ _))
  | nil =>
    by_cases ends : s.IsEnd
    · cases next with
      | turn _ turn =>
        cases turn with
        | begins => exact absurd ends id
        | opens _ h => cases h
        | waits _ h => cases h
        | pops plain => exact plain.elim
        | told _ _ told =>
          cases told with
          | through | stale => exact home_puts home base (s := .value .unit) trivial
          | script _ _ acted => exact above_serving home acted.above
          | clients => exact above_serving home (List.suffix_cons _ _)
          | nobody => exact above_serving home (List.suffix_refl _)
        | untold => exact home_puts home base (s := .cancelled) trivial
        | killedNow alien => rcases alien with alien | ⟨_, alien⟩ <;> cases alien
        | faulted alien => rcases alien with ⟨_, alien | ⟨_, alien⟩ | ⟨_, alien | alien⟩⟩ <;> cases alien
      | edits | misnamed | closes | rests => exact absurd ends id
      | breaks alien => rcases alien with alien | alien <;> cases alien
    · exact above_serving home (next.over ends)

/-- An edit of a document whose name is text begins to tell the subscribers. -/
theorem Next.edit_tells {name text : String} {l : Landing} {ks : List Slot}
    (h : Next w t fs (.start (.edit (.name name) text)) l ks) :
    ∃ u js g, l = .go (.notifying u js :: .issued g :: fs) (.value .unit) := by
  cases h with
  | turn aside => exact absurd rfl (aside.2.1 _ _)
  | edits => exact ⟨_, _, _, rfl⟩
  | misnamed unnamed => exact absurd rfl (unnamed name)
  | @settles _ _ _ o _ answered =>
    exact (answered ▸ answerSignal_end o : (Signal.start (.edit (.name name) text)).IsEnd).elim
  | drops ends => exact ends.elim

/-- A closing is over, fails, or waits for the tasks of the document. -/
theorem beginClose_land (w : World) (t : TaskId) (fs : List Frame) (doc : DocId) : ∃ (x : World) (l : Landing),
    w.beginClose t fs doc = x.land t l ∧ x.tasks.length = w.tasks.length ∧
      (l = .go fs (.value .unit) ∨ (∀ name, doc ≠ .name name) ∧ l = .go fs (.fault (.nameNotText doc.typeName)) ∨
        (∃ n g, l = .park (.closing doc n :: fs) (.group g)) ∨
        (∃ s, w.slotOf? doc = some s ∧ (w.closingReach doc s).1 = .endless) ∧ l = .go fs (.fault .nestedTooDeep)) := by
  obtain ⟨taken, tasks, -, members⟩ := removeSlot_rest w doc
  have length : (w.removeSlot doc).2.tasks.length = w.tasks.length := congrArg _ tasks
  cases registered : w.slotOf? doc with
  | none =>
    refine ⟨(w.removeSlot doc).2, .go fs (.value .unit), ?_, length, .inl rfl⟩
    simp only [beginClose, taken, registered]
    rfl
  | some s =>
    by_cases idle : w.tasksOf s = []
    · have eq : w.beginClose t fs doc = (w.removeSlot doc).2.closed t fs doc 0 := by
        have none_left : (Option.map Slot.tasks (w.removeSlot doc).2.slots[s]?).getD [] = [] := (members s).trans idle
        simp only [beginClose, taken, registered, none_left]
        rfl
      cases doc with
      | name name => exact ⟨_, .go fs (.value .unit), eq, length, .inl rfl⟩
      | number | truth => exact ⟨_, .go fs (.fault _), eq, length, .inr (.inl ⟨nofun, rfl⟩)⟩
    · have eq := beginClose_tasks t fs registered idle
      dsimp only at eq
      have cancelled : (w.closingReach doc s).2.tasks.length = w.tasks.length :=
        (cancelAll_nudges (w.removeSlot doc).2 (w.tasksOf s)).length.trans length
      split at eq
      · rename_i endless
        exact ⟨_, .go fs (.fault .nestedTooDeep), eq, cancelled, .inr (.inr (.inr ⟨⟨s, rfl, endless⟩, rfl⟩))⟩
      · obtain ⟨ks, js, enrolled, length', -⟩ := enroll_eq (w.closingReach doc s).2 t (w.tasksOf s)
        refine ⟨_, .park _ (.group _), eq, ?_, .inr (.inr (.inl ⟨_, _, rfl⟩))⟩
        rw [enrolled]
        exact length'.trans cancelled

/-- A message that has something done goes on with it, as long as its sender can be sent to. -/
theorem Serving.step (h : Serving c lapse pre s) (flight : Flight ms b v) (sound : v.CanSend c)
    (busy : pre = [] → ¬ s.IsEnd) (running : v.current = some (t, pre ++ base, s)) :
    ∃ (x : World) (l : Landing), v.tick = x.land t l ∧ t < x.tasks.length ∧ l.Puts (Serving c lapse) base := by
  have there := flight.there running
  have tick := tick_running running
  have next : ∀ {P : Landing → Prop}, (∀ ks l, Next v t (pre ++ base) s l ks → P l) →
      ∃ (x : World) (l : Landing), v.tick = x.land t l ∧ t < x.tasks.length ∧ P l := by
    intro P all
    obtain ⟨x, l, deeds, next, eq, -⟩ := flight.tick_stack running
    exact ⟨x, l, eq, Nat.lt_of_lt_of_le there deeds.grown.length, all _ l next⟩
  cases h with
  | rests calm => exact absurd calm.ends (busy rfl)
  | lapsed => exact absurd trivial (busy rfl)
  | @replies m =>
    rcases beginSend_sound t base m sound with ⟨x, eq, -, -, tasks⟩ | ⟨x, d, eq, -, -, tasks⟩
    · exact ⟨x.emit (.sent x.clock c m), .go base (.value .unit), tick.trans eq, tasks ▸ there, [], rfl, .rests trivial⟩
    · obtain ⟨l, landed, rest⟩ := sleep_land x t (.sending c m :: base) d
      refine ⟨x, l, (tick.trans eq).trans landed, tasks ▸ there, ?_⟩
      rcases rest with rfl | ⟨n, rfl⟩
      · exact ⟨[.sending c m], List.cons_ne_nil _ _, rfl, fun _ => .sending⟩
      · exact ⟨[.sending c m], List.cons_ne_nil _ _, rfl, fun _ => .sending⟩
  | @sending m _ calm =>
    cases s with
    | start | fault => exact calm.elim
    | value =>
      have sends := tick.trans (transmit_sound sound)
      exact ⟨v.emit (.sent v.clock c m), .go base (.value .unit), sends, there, [], rfl, .rests trivial⟩
    | cancelled => exact ⟨v, .go base .cancelled, tick, there, [], rfl, .rests trivial⟩
  | @edits _ home name text =>
    refine next fun ks l next => ?_
    obtain ⟨u, js, g, rfl⟩ := next.edit_tells
    exact ⟨.notifying u js :: .issued g :: pre, rfl, @Serving.tells c lapse pre [] home u js g _⟩
  | @tells pre more home u js g =>
    refine next fun ks l next => ?_
    have next : Next v t (more ++ .notifying u js :: .issued g :: (pre ++ base)) s l ks := by simpa using next
    exact tells_puts home next
  | @told pre home g _ calm =>
    have back : ∀ s' : Signal, s'.IsCalm → (Landing.go (pre ++ base) s').Puts (Serving c lapse) base := by
      intro s' calm'
      refine ⟨pre, rfl, ?_⟩
      rcases home with rfl | ⟨doc, rfl⟩
      · exact .rests calm'
      · exact .acknowledges calm'
    cases s with
    | start | fault => exact calm.elim
    | value => exact ⟨v, .go (pre ++ base) (.value (.generation g)), tick, there, back _ trivial⟩
    | cancelled => exact ⟨v, .go (pre ++ base) .cancelled, tick, there, back _ trivial⟩
  | @acknowledges doc _ calm =>
    cases s with
    | start | fault => exact calm.elim
    | cancelled => exact ⟨v, .go base .cancelled, tick, there, [], rfl, .rests trivial⟩
    | value x =>
      cases x with
      | generation g => exact ⟨v, .go base (.start (.send c (.editAck doc g))), tick, there, [], rfl, .replies⟩
      | unit | outcome | exported | response | several =>
        exact ⟨v, .go base (.value _), tick, there, [], rfl, .rests trivial⟩
  | @closing doc id n _ calm lapses =>
    cases s with
    | start | fault => exact calm.elim
    | cancelled => exact ⟨v, .go (.confirming c doc :: base) .cancelled, tick, there, [_], rfl, .confirms trivial⟩
    | value =>
      cases id with
      | name name =>
        exact ⟨v.note (.closed name n), .go (.confirming c doc :: base) (.value .unit), tick, there,
          [_], rfl, .confirms trivial⟩
      | number | truth =>
        exact ⟨v, .go (.confirming c doc :: base) (.fault _), tick, there, [_], rfl, .broken (lapses nofun)⟩
  | @confirms doc _ calm =>
    cases s with
    | start | fault => exact calm.elim
    | cancelled => exact ⟨v, .go base .cancelled, tick, there, [], rfl, .rests trivial⟩
    | value => exact ⟨v, .go base (.start (.send c (.closeResult doc))), tick, there, [], rfl, .replies⟩
  | @broken doc f lapses => exact ⟨v, .go base (.fault f), tick, there, [], rfl, .lapsed lapses⟩

/-! ### The course of a message -/

theorem Engaged.busy {inputs : List Input} (h : w.Engaged c t base inputs) {n : Nat} (lt : n < inputs.length)
    (running : (w.run (inputs.take n)).current = some (t, pre ++ base, s)) : pre = [] → ¬ s.IsEnd := by
  rintro rfl ends
  exact (h n lt).2 s ends running

theorem Flight.run_replying (flight : Flight ms b w) {inputs : List Input} (allowed : ∀ i ∈ inputs, i.IsPublic)
    (sits : w.Sits (Replying c m) t base) (engaged : w.Engaged c t base inputs) :
    (w.run inputs).Sits (Replying c m) t base := by
  refine flight.run_sits allowed sits (fun _ _ _ at_ above _ calm => at_.calm above calm) ?_
  rintro n lt v rfl ⟨ms', b', flight'⟩ pre s at_ running
  exact (at_.step (engaged n lt).1 (flight'.there running) (engaged.busy lt running) running).1

theorem Flight.run_serving (flight : Flight ms b w) {inputs : List Input} (allowed : ∀ i ∈ inputs, i.IsPublic)
    (sits : w.Sits (Serving c lapse) t base) (engaged : w.Engaged c t base inputs) :
    (w.run inputs).Sits (Serving c lapse) t base := by
  refine flight.run_sits allowed sits (fun _ _ _ at_ above calm calm' => at_.calm above calm calm') ?_
  rintro n lt v rfl ⟨ms', b', flight'⟩ pre s at_ running
  exact at_.step flight' (engaged n lt).1 (engaged.busy lt running) running

/-- A message that is only replied to comes to its end. -/
theorem Flight.replying_returns (flight : Flight ms b w) (sits : w.Sits (Replying c m) t base)
    (returns : w.Resolves c t base s) : s = .value .unit ∨ s = .cancelled := by
  obtain ⟨mid, allowed, engaged, ends, now⟩ := returns
  obtain ⟨pre, base_eq, at_⟩ := (flight.run allowed).sits_running (flight.run_replying allowed sits engaged) now
  obtain rfl : pre = [] := by simpa using base_eq
  cases at_ with
  | begins => exact ends.elim
  | done => exact .inl rfl
  | cancelled => exact .inr rfl

theorem Flight.replying_sends (flight : Flight ms b w) (sits : w.Sits (Replying c m) t base) :
    w.OnlySends c t base m := by
  rintro mid v allowed engaged rfl ⟨-, fs, s, running⟩
  have before : ∀ n ≤ mid.length, (mid ++ [Input.tick]).take n = mid.take n := fun n le =>
    List.take_append_of_le_length le
  have lasts : w.Engaged c t base mid := by
    intro n lt
    rw [← before n (Nat.le_of_lt lt)]
    exact engaged n (Nat.lt_trans lt (by simp))
  have now := engaged mid.length (by simp)
  rw [before _ (Nat.le_refl _), List.take_length] at now
  have flight' := flight.run allowed
  obtain ⟨pre, rfl, at_⟩ := flight'.sits_running (flight.run_replying allowed sits lasts) running
  refine (at_.step now.1 (flight'.there running) ?_ running).2
  rintro rfl ends
  exact now.2 s ends running

/-- A message that has something done comes to its end, unless what it does may lapse into a fault. -/
theorem Flight.serving_returns (flight : Flight ms b w) (sits : w.Sits (Serving c lapse) t base)
    (returns : w.Resolves c t base s) : s.IsCalm ∨ ∃ f, lapse f ∧ s = .fault f := by
  obtain ⟨mid, allowed, engaged, ends, now⟩ := returns
  obtain ⟨pre, base_eq, at_⟩ := (flight.run allowed).sits_running (flight.run_serving allowed sits engaged) now
  obtain rfl : pre = [] := by simpa using base_eq
  exact at_.back ends

/-- Until its turn to take a step comes, the task that runs stays about to begin. -/
def Lingers (mid : List Input) : Prop := ∀ i ∈ mid, i.IsPublic ∧ i ≠ .tick

/-- A closing that a message asks for comes to its end. It fails only if what it names is not text, or if, as it
begins, cancelling one of the tasks it is to wait for has no end. -/
theorem Flight.closing_returns (flight : Flight ms b w) {doc : Json} {id : DocId}
    (asked : w.current = some (t, .confirming c doc :: base, .start (.close id))) (returns : w.Resolves c t base s) :
    s.IsCalm ∨ (∀ name, id ≠ .name name) ∧ s = .fault (.nameNotText id.typeName) ∨
      (∃ mid slot, Lingers mid ∧ (w.run mid).slotOf? id = some slot ∧
        ((w.run mid).closingReach id slot).1 = .endless) ∧ s = .fault .nestedTooDeep := by
  obtain ⟨mid, allowed, engaged, ends, now⟩ := returns
  induction mid generalizing ms w with
  | nil =>
    cases asked.symm.trans now
  | cons i rest ih =>
    have next := flight.apply (allowed i (by simp))
    have onward : (w.apply i).Engaged c t base rest := fun n lt => engaged (n + 1) (Nat.succ_lt_succ lt)
    have allowed' : ∀ j ∈ rest, j.IsPublic := fun j mem => allowed j (List.mem_cons_of_mem i mem)
    by_cases tick : i = .tick
    · subst tick
      let lapse (f : Fault) : Prop := (∀ name, id ≠ .name name) ∧ f = .nameNotText id.typeName ∨
        (∃ mid slot, Lingers mid ∧ (w.run mid).slotOf? id = some slot ∧
          ((w.run mid).closingReach id slot).1 = .endless) ∧ f = .nestedTooDeep
      have begun : (w.apply .tick).Sits (Serving c lapse) t base := by
        obtain ⟨x, l, eq, length, cases_on⟩ := beginClose_land w t (.confirming c doc :: base) id
        have step : w.apply .tick = x.land t l := (tick_running asked).trans eq
        rw [step]
        refine sits_land ?_ (length ▸ flight.there asked)
        rcases cases_on with rfl | ⟨unnamed, rfl⟩ | ⟨n, g, rfl⟩ | ⟨⟨slot, registered, endless⟩, rfl⟩
        · exact ⟨[.confirming c doc], rfl, .confirms trivial⟩
        · exact ⟨[.confirming c doc], rfl, .broken (.inl ⟨unnamed, rfl⟩)⟩
        · exact ⟨[.closing id n, .confirming c doc], List.cons_ne_nil _ _, rfl,
            fun _ calm => .closing calm fun unnamed => .inl ⟨unnamed, rfl⟩⟩
        · exact ⟨[.confirming c doc], rfl, .broken (.inr ⟨⟨[], slot, nofun, registered, endless⟩, rfl⟩)⟩
      rcases next.serving_returns begun ⟨rest, allowed', onward, ends, now⟩ with calm | ⟨f, unnamed | knotted, rfl⟩
      · exact .inl calm
      · exact .inr (.inl ⟨unnamed.1, congrArg _ unnamed.2⟩)
      · exact .inr (.inr ⟨knotted.1, congrArg _ knotted.2⟩)
    · rcases ih next (current_apply asked tick) allowed' onward now with calm | unnamed | ⟨⟨mid, slot, lingers, at_⟩, eq⟩
      · exact .inl calm
      · exact .inr (.inl unnamed)
      · refine .inr (.inr ⟨⟨i :: mid, slot, fun j mem => ?_, at_⟩, eq⟩)
        rcases List.mem_cons.1 mem with rfl | mem
        · exact ⟨allowed j (by simp), tick⟩
        · exact lingers j mem

/-! ### Names that are not text -/

theorem editBegun_latest (w : World) (doc : DocId) (text : String) :
    (w.editBegun doc text).generation = w.latestGeneration doc + 1 := by
  cases registered : w.slotOf? doc with
  | some u => simp [editBegun, ensureSlot_of_some registered, latestGeneration, registered]
  | none =>
    simp [editBegun, ensureSlot_of_none registered, generationOf, gaugeDocuments, Slot.new,
      latestGeneration, registered]

theorem latestGeneration_bumped (distinct : Distinct w.seats) (doc : DocId) (text : String)
    (same : v.seats = (w.bumped doc).seats) : v.latestGeneration doc = w.latestGeneration doc + 1 := by
  obtain ⟨-, distinct', a, at_slot, isOpen, named, generation⟩ := bumped_seats distinct doc text
  rw [← same] at at_slot distinct'
  have registered : v.slotOf? doc = some _ := slotOf?_eq distinct' at_slot isOpen named
  have number : v.generationOf (w.editBegun doc text).slot = a.generation := by
    rw [generationOf_seats, at_slot]
    rfl
  rw [latestGeneration, registered]
  show v.generationOf _ = _
  rw [number, generation, editBegun_latest]

theorem latestGeneration_slots (h : v.slots = w.slots) (doc : DocId) :
    v.latestGeneration doc = w.latestGeneration doc := by
  have number : v.generationOf = w.generationOf := by
    funext u
    simp only [generationOf, h]
  simp only [latestGeneration, slotOf?, openSlots, h, number]

theorem library_bumped (w : World) (doc : DocId) : (w.bumped doc).library = w.library := by
  unfold bumped ensureSlot
  cases w.slotOf? doc with
  | none | some => rfl

theorem library_abandonPending (w : World) (u : SlotId) : (w.abandonPending u).library = w.library := by
  unfold abandonPending
  dsimp only
  split
  · split
    · rfl
    · exact (cancel_nudges _ _).library
  · rfl

/-- An edit of what is not named by text raises, after it has got its number. -/
theorem misnamed_tick (distinct : Distinct w.seats) {id : DocId} {text : String} (unnamed : ∀ name, id ≠ .name name)
    (running : w.current = some (t, fs, .start (.edit id text))) :
    w.tick.current = some (t, fs, .fault (.nameNotText id.typeName)) ∧ w.tick.library = w.library ∧
      w.tick.latestGeneration id = w.latestGeneration id + 1 := by
  let v := (w.bumped id).abandonPending (w.editBegun id text).slot
  have edits : w.tick = v.fail t fs (.nameNotText id.typeName) :=
    (tick_running running).trans (beginEdit_unnamed w t fs text unnamed)
  rw [edits]
  refine ⟨rfl, (library_abandonPending _ _).trans (library_bumped w id), ?_⟩
  exact latestGeneration_bumped distinct id text (seats_abandonPending _)

/-- What names a document but is not text has its text stored and numbered, and then raises. -/
theorem Drafts.stumbles {id : DocId} {text : String} (h : w.Drafts c data pre id text) (distinct : Distinct w.seats)
    (unnamed : ∀ name, id ≠ .name name) (running : w.current = some (t, base, .start (.handle c data))) {v : World}
    (after : v = w.run (List.replicate (pre.length + 2) .tick)) :
    v.current = some (t, base, .fault (.nameNotText id.typeName)) ∧ v.library.content? id = some text ∧
      v.latestGeneration id = w.latestGeneration id + 1 := by
  obtain ⟨now, slots, stored⟩ := h.begins running
  have distinct' : Distinct w.tick.seats := by rwa [World.seats, slots]
  obtain ⟨now, library, number⟩ := misnamed_tick distinct' unnamed now
  rw [latestGeneration_slots slots] at number
  cases h with
  | view =>
    obtain rfl : v = w.tick.tick := after
    exact ⟨now, library ▸ stored, number⟩
  | edit =>
    obtain rfl : v = w.tick.tick.tick := after
    have raises := tick_running now
    rw [raises]
    exact ⟨rfl, library ▸ stored, number⟩

/-- Whatever a client sends is met in one of four ways. A message that is only replied to leaves library, slots and
pages alone, from its first step to its last, sends nothing but its reply, and is not ended by a fault; one that
throws does so at once and leaves them alone as well. An edit or an opening under a name that is text is not ended
by a fault, and a closing is only if what it names is not text, or if cancelling one of the document's tasks has no
end as it begins. An edit or an opening under anything else raises,
and by then the text has been stored and has got the next number. -/
theorem messages_handled {start : World} (new : start.IsNew) {before : List Input} (allowed : ∀ i ∈ before, i.IsPublic)
    {t : TaskId} {base : List Frame} {c : ClientId} {data : String} {w : World} (here : w = start.run before)
    (begun : w.current = some (t, base, .start (.handle c data))) :
    (∀ m, w.Replies data m → w.Undisturbed w.tick ∧ w.tick.sent = w.sent ∧
      w.tick.current = some (t, base, .start (.send c m)) ∧ w.tick.OnlySends c t base m ∧
      ∀ s, w.tick.Resolves c t base s → s = .value .unit ∨ s = .cancelled) ∧
    (∀ f, w.Throws data f → w.Undisturbed w.tick ∧ w.tick.sent = w.sent ∧ w.tick.current = some (t, base, .fault f)) ∧
    (∀ pre name text, w.Drafts c data pre (.name name) text → ∀ s, w.tick.Resolves c t base s → s.IsCalm) ∧
    (∀ doc id, Dismisses data doc id → ∀ s, w.tick.Resolves c t base s →
      s.IsCalm ∨ (∀ name, id ≠ .name name) ∧ s = .fault (.nameNotText id.typeName) ∨
        (∃ mid slot, Lingers mid ∧ (w.tick.run mid).slotOf? id = some slot ∧
          ((w.tick.run mid).closingReach id slot).1 = .endless) ∧ s = .fault .nestedTooDeep) ∧
    (∀ pre id text, w.Drafts c data pre id text → (∀ name, id ≠ .name name) →
      ∀ v, v = w.run (List.replicate (pre.length + 2) .tick) →
        v.current = some (t, base, .fault (.nameNotText id.typeName)) ∧
        v.library.content? id = some text ∧ v.latestGeneration id = w.latestGeneration id + 1) ∧
    ((∃ m, w.Replies data m) ∨ (∃ f, w.Throws data f) ∨ (∃ pre id text, w.Drafts c data pre id text) ∨
      ∃ doc id, Dismisses data doc id) := by
  subst here
  have flight := run_flight new allowed
  have next : Flight _ _ ((start.run before).tick) := flight.apply (i := .tick) trivial
  refine ⟨fun m replies => ?_, fun f throws => throws.raises begun, fun pre name text drafts s returns => ?_,
    fun doc id dismisses s returns => ?_, fun pre id text drafts unnamed v after => drafts.stumbles flight.sane.distinct unnamed begun after,
    message_met _ c data⟩
  · obtain ⟨same, sent, -, now⟩ := replies.begins begun
    have sits : (start.run before).tick.Sits (Replying c m) t base := .now .begins now
    exact ⟨same, sent, now, next.replying_sends sits, fun s => next.replying_returns sits⟩
  · obtain ⟨now, -⟩ := drafts.begins begun
    have home : IsHome c pre := by
      cases drafts with
      | edit => exact .inr ⟨_, rfl⟩
      | view => exact .inl rfl
    have sits : (start.run before).tick.Sits (Serving c fun _ => False) t base := .now (.edits home) now
    exact (next.serving_returns sits returns).resolve_right fun ⟨_, never, _⟩ => never
  · exact next.closing_returns (dismisses.begins begun) returns

end

/-! ### A number for a name -/

/-- The document that a message has edited, and the text. -/
def drafted? (data : String) : Option (DocId × String) :=
  match Web.Ask.ofText data with
  | .ok (.edit doc text) => (DocId.ofJson doc).toOption.map fun id => (id, text)
  | _ => none

theorem drafts_of_drafted {w : World} {data text : String} {id : DocId} (c : ClientId)
    (drafted : drafted? data = some (id, text)) : w.Drafts c data [.acknowledging c id] id text := by
  unfold drafted? at drafted
  split at drafted
  · rename_i doc text' asks
    cases named : DocId.ofJson doc with
    | error ty => simp [named, Except.toOption] at drafted
    | ok id' =>
      obtain ⟨rfl, rfl⟩ : id' = id ∧ text' = text := by simpa [named, Except.toOption] using drafted
      exact .edit asks named
  · cases drafted

/-- A client sends a message. -/
def messages (data : String) : List Input := [.connect fun _ => none, .begin (.handle 0 data)]

theorem isPublic_messages (data : String) : ∀ i ∈ messages data, i.IsPublic := by
  intro i mem
  rcases List.mem_cons.1 mem with rfl | mem
  · trivial
  · obtain rfl := List.mem_singleton.1 mem
    exact .handle _ _

/-- An edit of a document whose name is a number. -/
def numbered : String := "\x7b\"action\": \"edit\", \"document_id\": 5, \"text\": \"\"\x7d"

theorem drafted_numbered : drafted? numbered = some (.number (.whole 5), "") := by decide +kernel

theorem numbered_handled : let w := sample.run (messages numbered)
    (w.run (List.replicate 3 .tick)).library.content? (.number (.whole 5)) = some "" ∧
      (w.run (List.replicate 3 .tick)).current = some (0, [], .fault (.nameNotText "int")) := by
  have begun : (sample.run (messages numbered)).current = some (0, [], .start (.handle 0 numbered)) := rfl
  obtain ⟨-, -, -, -, misnamed, -⟩ := messages_handled isNew_sample (isPublic_messages numbered) rfl begun
  obtain ⟨raised, stored, -⟩ := misnamed _ _ _ (drafts_of_drafted 0 drafted_numbered) nofun _ rfl
  exact ⟨stored, raised⟩

/-- The handling of an edit whose document is named by a number ends in a fault, and its text is stored and has got
its number by then. -/
theorem numbered_edit_raises : let w := sample.run (messages numbered)
    w.CanSend 0 ∧ w.current = some (0, [], .start (.handle 0 numbered)) ∧
      (w.run (List.replicate 3 .tick)).current = some (0, [], .fault (.nameNotText "int")) ∧
      w.library.content? (.number (.whole 5)) = none ∧
      (w.run (List.replicate 3 .tick)).library.content? (.number (.whole 5)) = some "" ∧
      w.latestGeneration (.number (.whole 5)) = 0 ∧
      (w.run (List.replicate 3 .tick)).latestGeneration (.number (.whole 5)) = 1 := by
  intro w
  have running : w.current = some (0, [], .start (.handle 0 numbered)) := rfl
  have distinct : Distinct w.seats := nofun
  obtain ⟨raised, stored, number⟩ :=
    (drafts_of_drafted (w := w) 0 drafted_numbered).stumbles distinct nofun running rfl
  exact ⟨⟨_, rfl, rfl⟩, running, raised, rfl, stored, rfl, number⟩

end World
end InkPreview.Live
