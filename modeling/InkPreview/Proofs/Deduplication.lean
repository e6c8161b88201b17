import InkPreview.Proofs.Gallery
import Mathlib.Data.List.DropRight
import Mathlib.Data.List.SplitBy
import Mathlib.Order.Monotone.Basic
/-!
Pages against the history of their document. Since a document was last discarded its settled modes fall into runs of
one payload each: a run has one page, that of its first mode, and this is what is recorded. What is asked for other
documents does not matter, except for the numbers of the pages. Main statement: `Gallery.deduplicates`.
-/
namespace InkPreview

namespace Previews

theorem find?_record_self (p : Previews) (doc content : String) (mode : Mode) (a : Artifact) :
    (p.record doc content mode a).find? doc =
      some ⟨doc, some content, some mode, some a, ((p.find? doc).elim 0 (·.count)) + 1⟩ := by
  rw [find?_record]
  cases found : p.find? doc with
  | some s =>
    have named : s.doc = doc := by simpa using List.find?_some found
    simp [ensure, found, named]
  | none =>
    have blank : (p.ensure doc).find? doc = some (Preview.blank doc) := by
      rw [ensure, if_neg (by simp [found]), find?, List.find?_append]
      rw [find?] at found
      simp [found, Preview.blank]
    simp [blank, Preview.blank]

theorem artifact?_of_isUnchanged {p : Previews} {doc content : String} (unchanged : p.isUnchanged doc content = true) :
    ∃ a, p.artifact? doc = some a := by
  rw [isUnchanged] at unchanged
  split at unchanged
  · rename_i s found
    obtain ⟨a, page⟩ := Option.isSome_iff_exists.1 (Bool.and_eq_true_iff.1 unchanged).1
    exact ⟨a, by simp [artifact?, found, page]⟩
  · cases unchanged

end Previews

namespace Gallery
variable {g h : Gallery} {doc : String} {mode : Mode} {a : Artifact}

/-! ### Rendering -/

theorem render_kept (pending : mode.kind = .pending) (found : g.previews.artifact? doc = some a) :
    g.render doc mode = (a, .kept, g) := by
  rw [render, if_pos pending, found]

theorem render_placeholder (pending : mode.kind = .pending) (missing : g.previews.artifact? doc = none) :
    g.render doc mode = (g.fresh doc mode .empty, .placeholder, { g with next := g.next + 1 }) := by
  rw [render, if_pos pending, missing]

theorem render_reused (settled : mode.kind ≠ .pending) (unchanged : g.previews.isUnchanged doc mode.payload = true)
    (found : g.previews.artifact? doc = some a) : g.render doc mode = (a, .reused, g) := by
  rw [render, if_neg settled]
  simp [unchanged, found]

theorem render_built (settled : mode.kind ≠ .pending) (changed : g.previews.isUnchanged doc mode.payload = false) :
    g.render doc mode = (g.fresh doc mode mode, .built,
      { g with
        previews := g.previews.record doc mode.payload mode (g.fresh doc mode mode)
        next := g.next + 1 }) := by
  rw [render, if_neg settled]
  simp [changed]

/-! ### Sessions -/

/-- What is asked of a gallery for a document. -/
inductive Demand
  | render (mode : Mode)
  | last
  | discard
  deriving DecidableEq, Repr

structure Request where
  doc : String
  demand : Demand
  deriving DecidableEq, Repr

def answer (g : Gallery) (r : Request) : Option Artifact × Gallery :=
  match r.demand with
  | .render mode => (some (g.render r.doc mode).1, (g.render r.doc mode).2.2)
  | .last => (g.previews.artifact? r.doc, g)
  | .discard => (none, g.discard r.doc)

/-- A request and its answer. -/
structure Exchange where
  request : Request
  answer : Option Artifact
  deriving DecidableEq, Repr

/-- A gallery with all that was asked of it so far. -/
structure Session where
  gallery : Gallery
  log : List Exchange

namespace Session

def start (tag : String) : Session := ⟨new tag, []⟩

def ask (s : Session) (r : Request) : Session :=
  ⟨(s.gallery.answer r).2, s.log ++ [⟨r, (s.gallery.answer r).1⟩]⟩

def run (tag : String) (rs : List Request) : Session := rs.foldl ask (start tag)

/-- No answer so far was this page. -/
def IsNew (s : Session) (a : Artifact) : Prop := ∀ e ∈ s.log, ∀ b, e.answer = some b → b.serial ≠ a.serial

end Session

/-! ### Histories -/

/-- A settled mode that is rendered for a document, and the page for it. -/
def Exchange.shows? (doc : String) (e : Exchange) : Option (Mode × Artifact) :=
  match e.request.demand, e.answer with
  | .render mode, some page => if e.request.doc = doc ∧ mode.kind ≠ .pending then some (mode, page) else none
  | _, _ => none

/-- The settled modes that were rendered for a document since it was last discarded, with their pages. -/
def history (doc : String) (log : List Exchange) : List (Mode × Artifact) :=
  (log.rtakeWhile (·.request ≠ ⟨doc, .discard⟩)).filterMap (·.shows? doc)

/-- The maximal runs of one payload. -/
def runs (past : List (Mode × Artifact)) : List (List (Mode × Artifact)) :=
  past.splitBy fun x y => x.1.payload == y.1.payload

/-- The first of the last run. -/
def leader? (past : List (Mode × Artifact)) : Option (Mode × Artifact) := (runs past).getLast?.bind List.head?

/-- The preview of a document with a history. -/
def recorded (doc : String) (past : List (Mode × Artifact)) : Option Preview :=
  (leader? past).map fun (mode, page) => ⟨doc, some mode.payload, some mode, some page, (runs past).length⟩

variable {log : List Exchange} {e : Exchange} {past : List (Mode × Artifact)} {last next : Mode × Artifact}

theorem history_discard (discards : e.request = ⟨doc, .discard⟩) : history doc (log ++ [e]) = [] := by
  rw [history, List.rtakeWhile_concat_neg _ _ _ (by simp [discards])]
  rfl

theorem history_concat (keeps : e.request ≠ ⟨doc, .discard⟩) :
    history doc (log ++ [e]) = history doc log ++ (e.shows? doc).toList := by
  rw [history, List.rtakeWhile_concat_pos _ _ _ (by simp [keeps]), List.filterMap_append]
  cases shown : e.shows? doc <;> simp [shown, history]

theorem runs_concat_new (changed : ∀ last ∈ past.getLast?, last.1.payload ≠ next.1.payload) :
    runs (past ++ [next]) = runs past ++ [[next]] := by
  rw [runs, List.splitBy_append_cons [] fun last mem => by simpa using changed last mem]
  rfl

/-- A run goes on while the payload is the same. -/
theorem runs_concat_same (ends : past.getLast? = some last) (same : last.1.payload = next.1.payload) :
    ∃ before run, run ≠ [] ∧ runs past = before ++ [run] ∧ runs (past ++ [next]) = before ++ [run ++ [next]] := by
  obtain ⟨whole, full, alike, apart⟩ := List.splitBy_eq_iff.1 (rfl : runs past = runs past)
  obtain none | ⟨before, run, eq⟩ := List.eq_nil_or_concat (runs past)
  · rw [none] at whole
    rw [whole] at ends
    cases ends
  obtain rfl | ⟨front, final, rfl⟩ := List.eq_nil_or_concat run
  · exact absurd (by simp [eq]) full
  rw [List.concat_eq_append, List.concat_eq_append] at eq
  rw [eq] at whole full alike apart
  obtain rfl : final = last := by simpa [whole] using ends
  obtain ⟨apartBefore, -, meets⟩ := List.isChain_append.1 apart
  refine ⟨before, front ++ [final], by simp, eq, List.splitBy_eq_iff.2 ⟨by simp [whole], by simpa using full, ?_, ?_⟩⟩
  · intro run mem
    obtain mem | mem := List.mem_append.1 mem
    · exact alike run (List.mem_append_left _ mem)
    · obtain rfl := List.mem_singleton.1 mem
      have steady := alike (front ++ [final]) (List.mem_append_right _ List.mem_cons_self)
      exact List.isChain_append.2 ⟨steady, List.isChain_singleton _, by simp [same]⟩
  · refine List.isChain_append.2 ⟨apartBefore, List.isChain_singleton _, fun x mem y mem' => ?_⟩
    obtain ⟨solid, full, differ⟩ := meets x mem (front ++ [final]) rfl
    cases mem'
    exact ⟨solid, by simp, by rwa [List.head_append_of_ne_nil full]⟩

theorem leader?_concat_new (changed : ∀ last ∈ past.getLast?, last.1.payload ≠ next.1.payload) :
    leader? (past ++ [next]) = some next := by
  simp [leader?, runs_concat_new changed]

theorem leader?_concat_same (ends : past.getLast? = some last) (same : last.1.payload = next.1.payload) :
    leader? (past ++ [next]) = leader? past := by
  obtain ⟨before, run, full, runs, longer⟩ := runs_concat_same ends same
  simp [leader?, runs, longer, List.head?_append_of_ne_nil _ full]

theorem recorded_concat_same (ends : past.getLast? = some last) (same : last.1.payload = next.1.payload) :
    recorded doc (past ++ [next]) = recorded doc past := by
  obtain ⟨before, run, -, runs, longer⟩ := runs_concat_same ends same
  simp [recorded, leader?_concat_same ends same, runs, longer]

theorem recorded_concat_new (changed : ∀ last ∈ past.getLast?, last.1.payload ≠ next.1.payload) :
    recorded doc (past ++ [next]) =
      some ⟨doc, some next.1.payload, some next.1, some next.2, (runs past).length + 1⟩ := by
  simp [recorded, leader?_concat_new changed, runs_concat_new changed]

/-- The payload that is recorded is that of the last mode. -/
theorem leader?_payload (ends : past.getLast? = some last) :
    ∃ first, leader? past = some first ∧ first.1.payload = last.1.payload := by
  induction past using List.reverseRecOn generalizing last with
  | nil => cases ends
  | append_singleton past next ih =>
    obtain rfl : next = last := by simpa using ends
    by_cases same : ∃ before ∈ past.getLast?, before.1.payload = next.1.payload
    · obtain ⟨before, mem, same⟩ := same
      obtain ⟨first, leads, payload⟩ := ih mem
      exact ⟨first, (leader?_concat_same mem same).trans leads, payload.trans same⟩
    · push Not at same
      exact ⟨next, leader?_concat_new same, rfl⟩

theorem leader?_none (empty : leader? past = none) : runs past = [] := by
  cases ends : (runs past).getLast? with
  | none => exact List.getLast?_eq_none_iff.1 ends
  | some run =>
    have void : run = [] := by simpa [leader?, ends] using empty
    exact absurd (void ▸ List.mem_of_getLast? ends) (List.nil_notMem_splitBy _ past)

theorem count_recorded (doc : String) (past : List (Mode × Artifact)) :
    (recorded doc past).elim 0 (·.count) = (runs past).length := by
  cases leads : leader? past with
  | none => simp [recorded, leads, leader?_none leads]
  | some first => simp [recorded, leads]

/-- A gallery records a history of a document. Its last page is the one that is recorded. -/
structure Records (g : Gallery) (doc : String) (past : List (Mode × Artifact)) : Prop where
  preview : g.previews.find? doc = recorded doc past
  latest : (leader? past).map (·.2) = past.getLast?.map (·.2)

namespace Records

theorem congr (r : g.Records doc past) (same : h.previews.find? doc = g.previews.find? doc) : h.Records doc past :=
  ⟨same.trans r.preview, r.latest⟩

theorem artifact? (r : g.Records doc past) : g.previews.artifact? doc = past.getLast?.map (·.2) := by
  rw [Previews.artifact?, r.preview, ← r.latest]
  cases leads : leader? past <;> simp [recorded, leads]

theorem render_same (r : g.Records doc past) (settled : mode.kind ≠ .pending) (ends : past.getLast? = some last)
    (same : last.1.payload = mode.payload) : g.render doc mode = (last.2, .reused, g) := by
  obtain ⟨first, leads, payload⟩ := leader?_payload ends
  refine render_reused settled ?_ (by rw [r.artifact?, ends, Option.map_some])
  simp [Previews.isUnchanged, r.preview, recorded, leads, payload, same]

theorem render_new (r : g.Records doc past) (settled : mode.kind ≠ .pending)
    (changed : ∀ last ∈ past.getLast?, last.1.payload ≠ mode.payload) :
    g.render doc mode = (g.fresh doc mode mode, .built,
      { g with
        previews := g.previews.record doc mode.payload mode (g.fresh doc mode mode)
        next := g.next + 1 }) := by
  refine render_built settled ?_
  cases ends : past.getLast? with
  | none =>
    have empty : past = [] := List.getLast?_eq_none_iff.1 ends
    simp [Previews.isUnchanged, r.preview, empty, recorded, leader?, runs]
  | some last =>
    obtain ⟨first, leads, payload⟩ := leader?_payload ends
    simp [Previews.isUnchanged, r.preview, recorded, leads, payload, changed last ends]

theorem pending (r : g.Records doc past) (pending : mode.kind = .pending) :
    (g.render doc mode).2.2.Records doc past := by
  cases found : g.previews.artifact? doc with
  | none => exact r.congr (by rw [render_placeholder pending found])
  | some a => exact r.congr (by rw [render_kept pending found])

theorem settled (r : g.Records doc past) (settled : mode.kind ≠ .pending) :
    (g.render doc mode).2.2.Records doc (past ++ [(mode, (g.render doc mode).1)]) := by
  by_cases same : ∃ last ∈ past.getLast?, last.1.payload = mode.payload
  · obtain ⟨last, ends, same⟩ := same
    rw [r.render_same settled ends same]
    refine ⟨r.preview.trans (recorded_concat_same ends same).symm, ?_⟩
    rw [leader?_concat_same ends same, r.latest, List.getLast?_concat, Option.map_some]
    exact congrArg _ ends
  · push Not at same
    rw [r.render_new settled same]
    refine ⟨?_, by rw [leader?_concat_new same, List.getLast?_concat]⟩
    rw [Previews.find?_record_self, r.preview, count_recorded, recorded_concat_new same]

end Records

/-! ### What a session keeps -/

theorem answer_of_mem_history (mem : next ∈ history doc log) : ∃ e ∈ log, e.answer = some next.2 := by
  obtain ⟨e, there, shown⟩ := List.mem_filterMap.1 mem
  refine ⟨e, (List.rtakeWhile_suffix _ _).subset there, ?_⟩
  unfold Exchange.shows? at shown
  split at shown
  · rename_i mode page _ answered
    obtain ⟨-, same⟩ := Option.ite_none_right_eq_some.1 shown
    rw [answered, ← Option.some.inj same]
  · cases shown

theorem history_idle (keeps : e.request ≠ ⟨doc, .discard⟩) (idle : e.shows? doc = none) :
    history doc (log ++ [e]) = history doc log := by
  simp [history_concat keeps, idle]

theorem history_other {name : String} (other : name ≠ doc) {demand : Demand} {a : Option Artifact} :
    history doc (log ++ [⟨⟨name, demand⟩, a⟩]) = history doc log := by
  refine history_idle (by simp [other]) ?_
  unfold Exchange.shows?
  split
  · exact if_neg fun both => other both.1
  · rfl

theorem find?_answer_other (g : Gallery) {name : String} (other : name ≠ doc) (demand : Demand) :
    (g.answer ⟨name, demand⟩).2.previews.find? doc = g.previews.find? doc := by
  cases demand with
  | render mode => exact find?_render_other g other mode
  | last => rfl
  | discard => exact Previews.find?_remove_other _ other

/-- The histories of a session are what its gallery records, and its answers have the numbers that were given out. -/
structure Session.Tracks (s : Session) : Prop where
  older : ∀ e ∈ s.log, ∀ a, e.answer = some a → a.serial < s.gallery.next
  records (doc : String) : s.gallery.Records doc (history doc s.log)

namespace Session
variable {s : Session}

theorem tracks_start (tag : String) : (start tag).Tracks := ⟨nofun, fun _ => ⟨rfl, rfl⟩⟩

theorem Tracks.older_artifact (t : s.Tracks) (found : s.gallery.previews.artifact? doc = some a) :
    a.serial < s.gallery.next := by
  rw [(t.records doc).artifact?] at found
  obtain ⟨last, ends, rfl⟩ := Option.map_eq_some_iff.1 found
  obtain ⟨e, there, answered⟩ := answer_of_mem_history (List.mem_of_getLast? ends)
  exact t.older e there _ answered

/-- A rendering answers with a page that is there, or takes the next number. -/
theorem Tracks.render_serial (t : s.Tracks) (doc : String) (mode : Mode) :
    (s.gallery.render doc mode).1.serial < (s.gallery.render doc mode).2.2.next ∧
      s.gallery.next ≤ (s.gallery.render doc mode).2.2.next := by
  unfold Gallery.render
  split
  · split
    · exact ⟨t.older_artifact ‹_›, le_rfl⟩
    · exact ⟨Nat.lt_succ_self _, Nat.le_succ _⟩
  · dsimp only
    split
    · exact ⟨t.older_artifact (Option.ite_none_right_eq_some.1 ‹_›).2, le_rfl⟩
    · exact ⟨Nat.lt_succ_self _, Nat.le_succ _⟩

theorem Tracks.isNew_fresh (t : s.Tracks) (doc : String) (mode shown : Mode) :
    s.IsNew (s.gallery.fresh doc mode shown) :=
  fun e mem a answered => (t.older e mem a answered).ne

theorem Tracks.answer_serial (t : s.Tracks) (r : Request) :
    s.gallery.next ≤ (s.gallery.answer r).2.next ∧
      ∀ a, (s.gallery.answer r).1 = some a → a.serial < (s.gallery.answer r).2.next := by
  obtain ⟨doc, demand⟩ := r
  cases demand with
  | render mode =>
    obtain ⟨below, later⟩ := t.render_serial doc mode
    refine ⟨later, fun a answered => ?_⟩
    cases answered
    exact below
  | last => exact ⟨le_rfl, fun a answered => t.older_artifact answered⟩
  | discard => exact ⟨le_rfl, nofun⟩

theorem Tracks.records_ask (t : s.Tracks) (r : Request) (doc : String) :
    (s.ask r).gallery.Records doc (history doc (s.ask r).log) := by
  obtain ⟨name, demand⟩ := r
  by_cases here : name = doc
  · subst here
    cases demand with
    | last =>
      rw [ask, history_idle (by simp) rfl]
      exact t.records name
    | discard =>
      rw [ask, history_discard rfl]
      exact ⟨Previews.find?_remove _ name, rfl⟩
    | render mode =>
      rw [ask, history_concat (by simp)]
      by_cases pending : mode.kind = .pending
      · simpa [Exchange.shows?, Gallery.answer, pending] using (t.records name).pending pending
      · simpa [Exchange.shows?, Gallery.answer, pending] using (t.records name).settled pending
  · rw [ask, history_other here]
    exact (t.records doc).congr (find?_answer_other s.gallery here demand)

theorem Tracks.ask (t : s.Tracks) (r : Request) : (s.ask r).Tracks := by
  obtain ⟨later, known⟩ := t.answer_serial r
  refine ⟨fun e mem a answered => ?_, t.records_ask r⟩
  obtain mem | mem := List.mem_append.1 mem
  · exact (t.older e mem a answered).trans_le later
  · obtain rfl := List.mem_singleton.1 mem
    exact known a answered

theorem run_concat (tag : String) (rs : List Request) (r : Request) : run tag (rs ++ [r]) = (run tag rs).ask r := by
  rw [run, run, List.foldl_concat]

theorem tracks_run (tag : String) (rs : List Request) : (run tag rs).Tracks := by
  induction rs using List.reverseRecOn with
  | nil => exact tracks_start tag
  | append_singleton rs r ih =>
    rw [run_concat]
    exact ih.ask r

end Session

/-! ### Documents apart -/

end Gallery

def Artifact.renumber (f : Nat → Nat) (a : Artifact) : Artifact := { a with serial := f a.serial }

def Preview.renumber (f : Nat → Nat) (s : Preview) : Preview := { s with artifact := s.artifact.map (·.renumber f) }

namespace Gallery

def Exchange.renumber (f : Nat → Nat) (e : Exchange) : Exchange := { e with answer := e.answer.map (·.renumber f) }

/-- A gallery treats a document as another one does, except for the numbers of the pages. -/
structure Mirrors (f : Nat → Nat) (doc : String) (g h : Gallery) : Prop where
  tag : g.tag = h.tag
  next (n : Nat) : f (h.next + n) = g.next + n
  preview : g.previews.find? doc = (h.previews.find? doc).map (·.renumber f)

/-- The numbers from some place on are moved. -/
def skipFrom (start k : Nat) (f : Nat → Nat) (n : Nat) : Nat := if n < start then f n else f n + k

variable {f : Nat → Nat} {g h i : Gallery} {doc : String} {a : Artifact}

theorem strictMono_skipFrom (grows : StrictMono f) (start k : Nat) : StrictMono (skipFrom start k f) := by
  intro m n less
  have below := grows less
  simp only [skipFrom]
  split <;> split <;> omega

theorem renumber_skipFrom {start k : Nat} (older : a.serial < start) :
    a.renumber (skipFrom start k f) = a.renumber f := by
  simp [Artifact.renumber, skipFrom, older]

theorem tag_answer (g : Gallery) (r : Request) : (g.answer r).2.tag = g.tag := by
  obtain ⟨doc, demand⟩ := r
  cases demand with
  | render mode => exact tag_render g doc mode
  | last => rfl
  | discard => rfl

namespace Mirrors

theorem artifact? (m : Mirrors f doc g h) :
    g.previews.artifact? doc = (h.previews.artifact? doc).map (·.renumber f) := by
  rw [Previews.artifact?, Previews.artifact?, m.preview]
  cases h.previews.find? doc <;> rfl

theorem isUnchanged (m : Mirrors f doc g h) (content : String) :
    g.previews.isUnchanged doc content = h.previews.isUnchanged doc content := by
  rw [Previews.isUnchanged, Previews.isUnchanged, m.preview]
  cases h.previews.find? doc <;> simp [Preview.renumber]

theorem fresh (m : Mirrors f doc g h) (mode shown : Mode) :
    g.fresh doc mode shown = (h.fresh doc mode shown).renumber f := by
  have next : f h.next = g.next := m.next 0
  simp [Gallery.fresh, Artifact.renumber, build, m.tag, next]

theorem one (m : Mirrors f doc g h) (k : Nat) {p q : Previews}
    (preview : p.find? doc = (q.find? doc).map (·.renumber f)) :
    Mirrors f doc { g with previews := p, next := g.next + k } { h with previews := q, next := h.next + k } where
  tag := m.tag
  next n := by simp only [Nat.add_assoc, m.next]
  preview := preview

theorem render (m : Mirrors f doc g h) (mode : Mode) :
    (g.render doc mode).1 = (h.render doc mode).1.renumber f ∧
      Mirrors f doc (g.render doc mode).2.2 (h.render doc mode).2.2 := by
  by_cases pending : mode.kind = .pending
  · cases found : h.previews.artifact? doc with
    | none =>
      rw [render_placeholder pending found, render_placeholder pending (by rw [m.artifact?, found]; rfl)]
      exact ⟨m.fresh mode .empty, m.one 1 m.preview⟩
    | some a =>
      rw [render_kept pending found, render_kept pending (by rw [m.artifact?, found]; rfl)]
      exact ⟨rfl, m⟩
  · cases unchanged : h.previews.isUnchanged doc mode.payload with
    | false =>
      rw [render_built pending unchanged, render_built pending (by rw [m.isUnchanged, unchanged])]
      refine ⟨m.fresh mode mode, m.one 1 ?_⟩
      rw [Previews.find?_record_self, Previews.find?_record_self, m.preview, m.fresh]
      cases h.previews.find? doc <;> rfl
    | true =>
      obtain ⟨a, found⟩ := Previews.artifact?_of_isUnchanged unchanged
      rw [render_reused pending unchanged found, render_reused pending (by rw [m.isUnchanged, unchanged])
        (by rw [m.artifact?, found]; rfl)]
      exact ⟨rfl, m⟩

theorem answer (m : Mirrors f doc g h) (demand : Demand) :
    (g.answer ⟨doc, demand⟩).1 = (h.answer ⟨doc, demand⟩).1.map (·.renumber f) ∧
      Mirrors f doc (g.answer ⟨doc, demand⟩).2 (h.answer ⟨doc, demand⟩).2 := by
  cases demand with
  | render mode =>
    obtain ⟨page, rest⟩ := m.render mode
    exact ⟨congrArg some page, rest⟩
  | last => exact ⟨m.artifact?, m⟩
  | discard =>
    refine ⟨rfl, m.tag, m.next, ?_⟩
    rw [Gallery.answer, Gallery.answer, discard, discard, Previews.find?_remove, Previews.find?_remove]
    rfl

/-- What is asked for other documents takes numbers only. -/
theorem skip (m : Mirrors f doc g h) {k : Nat} (next : i.next = g.next + k) (tag : i.tag = g.tag)
    (preview : i.previews.find? doc = g.previews.find? doc)
    (older : ∀ a, h.previews.artifact? doc = some a → a.serial < h.next) : Mirrors (skipFrom h.next k f) doc i h where
  tag := tag.trans m.tag
  next n := by
    rw [skipFrom, if_neg (by omega), m.next, next]
    omega
  preview := by
    rw [preview, m.preview]
    cases found : h.previews.find? doc with
    | none => rfl
    | some s =>
      have same : s.artifact.map (·.renumber (skipFrom h.next k f)) = s.artifact.map (·.renumber f) := by
        refine Option.map_congr fun a page => renumber_skipFrom ?_
        exact older a (by simp [Previews.artifact?, found, page])
      simp [Preview.renumber, same]

end Mirrors

namespace Session
variable {s own : Session}

/-- A session treats a document as another one does where nothing else is asked for. -/
structure Mirrors (f : Nat → Nat) (doc : String) (s own : Session) : Prop where
  grows : StrictMono f
  gallery : Gallery.Mirrors f doc s.gallery own.gallery
  log : s.log.filter (·.request.doc = doc) = own.log.map (·.renumber f)

theorem Mirrors.ask (m : Mirrors f doc s own) (demand : Demand) :
    Mirrors f doc (s.ask ⟨doc, demand⟩) (own.ask ⟨doc, demand⟩) := by
  obtain ⟨answer, rest⟩ := m.gallery.answer demand
  refine ⟨m.grows, rest, ?_⟩
  simp [Session.ask, m.log, answer, Exchange.renumber]

theorem Mirrors.ask_other (m : Mirrors f doc s own) (t : s.Tracks) (t' : own.Tracks) {name : String}
    (other : name ≠ doc) (demand : Demand) : ∃ f, Mirrors f doc (s.ask ⟨name, demand⟩) own := by
  obtain ⟨k, next⟩ := Nat.exists_eq_add_of_le (t.answer_serial ⟨name, demand⟩).1
  refine ⟨skipFrom own.gallery.next k f, strictMono_skipFrom m.grows _ k, ?_, ?_⟩
  · exact m.gallery.skip next (tag_answer _ _) (find?_answer_other _ other demand) fun a => t'.older_artifact
  · have same : ∀ e ∈ own.log, e.renumber (skipFrom own.gallery.next k f) = e.renumber f := by
      intro e mem
      exact congrArg (Exchange.mk e.request)
        (Option.map_congr fun a answered => renumber_skipFrom (t'.older e mem a answered))
    rw [List.map_congr_left same, ← m.log]
    simp [Session.ask, other]

/-- What is asked for other documents does not matter for a document, except for the numbers of its pages. -/
theorem mirrors_run (tag : String) (rs : List Request) (doc : String) :
    ∃ f, Mirrors f doc (run tag rs) (run tag (rs.filter (·.doc = doc))) := by
  induction rs using List.reverseRecOn with
  | nil => exact ⟨id, strictMono_id, ⟨rfl, fun _ => rfl, rfl⟩, rfl⟩
  | append_singleton rs r ih =>
    obtain ⟨f, mirrors⟩ := ih
    obtain ⟨name, demand⟩ := r
    rw [List.filter_append, run_concat]
    by_cases here : name = doc
    · subst here
      rw [List.filter_cons_of_pos (by simp), List.filter_nil, run_concat]
      exact ⟨f, mirrors.ask demand⟩
    · rw [List.filter_cons_of_neg (by simp [here]), List.filter_nil, List.append_nil]
      exact mirrors.ask_other (tracks_run tag rs) (tracks_run tag _) here demand

end Session

/-- A settled mode is shown by the page before it just where the payload is the same, and else by a new page; a pending
mode shows the page that is there and records nothing. A preview holds the last page, how many runs of one payload there
were, and what the last of them began with. None of this depends on other documents. -/
theorem deduplicates (tag : String) (rs : List Request) (doc : String) :
    let s := Session.run tag rs
    let past := history doc s.log
    (∀ mode : Mode, mode.kind ≠ .pending →
      (∀ last page, past.getLast? = some (last, page) →
        ((s.gallery.render doc mode).1 = page ↔ last.payload = mode.payload)) ∧
      ((∀ last page, past.getLast? = some (last, page) → last.payload ≠ mode.payload) →
        s.IsNew (s.gallery.render doc mode).1 ∧ (s.gallery.render doc mode).1.html = s.gallery.build mode none)) ∧
    (∀ mode : Mode, mode.kind = .pending →
      (∀ last page, past.getLast? = some (last, page) →
        (s.gallery.render doc mode).1 = page ∧ (s.gallery.render doc mode).2.2 = s.gallery) ∧
      (past = [] →
        s.IsNew (s.gallery.render doc mode).1 ∧ (s.gallery.render doc mode).1.html = s.gallery.build .empty none ∧
        (s.gallery.render doc mode).2.2.previews = s.gallery.previews)) ∧
    s.gallery.previews.find? doc = recorded doc past ∧
    s.gallery.previews.artifact? doc = past.getLast?.map (·.2) ∧
    ∃ f, Session.Mirrors f doc s (Session.run tag (rs.filter (·.doc = doc))) := by
  intro s past
  have t : s.Tracks := Session.tracks_run tag rs
  have r : s.gallery.Records doc past := t.records doc
  refine ⟨fun mode settled => ⟨fun last page ends => ⟨fun again => ?_, fun same => ?_⟩, fun changed => ?_⟩,
    fun mode pending => ⟨fun last page ends => ?_, fun empty => ?_⟩, r.preview, r.artifact?,
    Session.mirrors_run tag rs doc⟩
  · by_contra differ
    have renewed := r.render_new settled fun latest mem => by
      obtain rfl := Option.some.inj (ends.symm.trans mem)
      exact differ
    have old := t.older_artifact (r.artifact?.trans (by rw [ends, Option.map_some]))
    rw [← again, renewed] at old
    exact absurd old (lt_irrefl _)
  · rw [r.render_same settled ends same]
  · rw [r.render_new settled fun latest mem => changed latest.1 latest.2 mem]
    exact ⟨t.isNew_fresh doc mode mode, rfl⟩
  · rw [render_kept pending (r.artifact?.trans (by rw [ends, Option.map_some]))]
    exact ⟨rfl, rfl⟩
  · rw [render_placeholder pending (r.artifact?.trans (by rw [empty]; rfl))]
    exact ⟨t.isNew_fresh doc mode .empty, rfl, rfl⟩

end Gallery
end InkPreview
