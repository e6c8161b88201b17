import InkPreview.Metrics
import Mathlib.Data.List.Induction
import Mathlib.Data.List.Nodup
import Mathlib.Data.String.Basic
/-!
Measurements as a map from names and labels. What a counter or a gauge shows is what has been added to or set
under its text; where no separator stands in a name or a label, that is what has been added to or set for its
name and labels. Main statements: `key_eq_iff` and `run_measured`.
-/
namespace InkPreview

open Decimal (Number)

/-- What a measurement is of: a name, and labels each of which has a name of its own. -/
structure Measure where
  name : String
  labels : Labels
  nodup : (labels.map (·.1)).Nodup

namespace Measure

/-- The name and every label are the same, in whatever order the labels come. -/
def Same (x y : Measure) : Prop := x.name = y.name ∧ ∀ l, x.labels.lookup l = y.labels.lookup l

/-- The text that the measurement is filed under. -/
def key (x : Measure) : String := Metrics.key x.name x.labels

/-- No separator stands where it would be taken for one. -/
structure IsPlain (x : Measure) : Prop where
  name : '{' ∉ x.name.toList
  label : ∀ l ∈ x.labels, '=' ∉ l.1.toList ∧ ',' ∉ l.1.toList ∧ ',' ∉ l.2.toList

end Measure

namespace Metrics

/-- What may be asked of the measurements, reading them apart. -/
inductive Call
  | inc (x : Measure) (value : Number)
  | gauge (x : Measure) (value : Number)
  | reset
  | enable (on : Bool)

def call (m : Metrics) : Call → Metrics
  | .inc x v => m.inc x.name x.labels v
  | .gauge x v => m.gauge x.name v x.labels
  | .reset => m.reset
  | .enable on => { m with enabled := on }

def run (m : Metrics) (calls : List Call) : Metrics := calls.foldl call m

def Call.measure? : Call → Option Measure
  | inc x _ | gauge x _ => some x
  | _ => none

/-- Whether measurements are taken after these calls, of which the newest comes first. -/
def isOn : List Call → Bool
  | [] => true
  | .enable on :: _ => on
  | _ :: before => isOn before

/-- The calls that count, the newest first: those since the last reset, made while measurements were taken. -/
def heard : List Call → List Call
  | [] => []
  | .reset :: _ => []
  | c :: before => if isOn before then c :: heard before else heard before

/-- What a call adds to measurements among the given ones. -/
def Call.adds? (among : Measure → Bool) : Call → Option Number
  | inc x v => if among x then some v else none
  | _ => none

/-- What a call sets measurements among the given ones to. -/
def Call.sets? (among : Measure → Bool) : Call → Option Number
  | gauge x v => if among x then some v else none
  | _ => none

/-- What has been added by calls, of which the newest comes first: the amounts in the order of the calls. -/
def added (among : Measure → Bool) (past : List Call) : List Number :=
  ((heard past).filterMap (Call.adds? among)).reverse

/-- What has been set last, of calls of which the newest comes first. -/
def lastSet (among : Measure → Bool) (past : List Call) : Option Number :=
  (heard past).findSome? (Call.sets? among)

def total (values : List Number) : Number := values.foldl Number.add (.whole 0)

/-! ### Tables -/

theorem lookup_upsert_self (d : Number) (f : Number → Number) (k : String) (entries : List (String × Number)) :
    (upsert d f k entries).lookup k = some (f ((entries.lookup k).getD d)) := by
  induction entries with
  | nil => simp [upsert]
  | cons e rest ih =>
    obtain ⟨k', x⟩ := e
    unfold upsert
    split
    · rename_i same
      simp [same]
    · rename_i other
      have apart : (k == k') = false := by simpa using Ne.symm other
      rw [List.lookup_cons, List.lookup_cons, apart]
      exact ih

theorem lookup_upsert_other (d : Number) (f : Number → Number) {k k' : String} (other : k' ≠ k)
    (entries : List (String × Number)) : (upsert d f k entries).lookup k' = entries.lookup k' := by
  have apart : (k' == k) = false := by simpa using other
  induction entries with
  | nil => simp [upsert, List.lookup_cons, apart]
  | cons e rest ih =>
    obtain ⟨j, x⟩ := e
    unfold upsert
    split
    · rename_i same
      rw [List.lookup_cons, List.lookup_cons, same, apart]
    · rw [List.lookup_cons, List.lookup_cons, ih]

/-! ### One call -/

section
variable {m : Metrics} {x y : Measure} {v : Number}

theorem counter_inc_same (on : m.enabled = true) (same : y.key = x.key) :
    (m.inc y.name y.labels v).counter x.name x.labels = (m.counter x.name x.labels).add v := by
  have filed : key y.name y.labels = key x.name x.labels := same
  simp [inc, counter, on, filed, lookup_upsert_self]

theorem counter_inc_other (other : y.key ≠ x.key) :
    (m.inc y.name y.labels v).counter x.name x.labels = m.counter x.name x.labels := by
  unfold inc
  split
  · exact congrArg (·.getD (.whole 0)) (lookup_upsert_other _ _ (Ne.symm other) _)
  · rfl

theorem gaugeValue_gauge_same (on : m.enabled = true) (same : y.key = x.key) :
    (m.gauge y.name v y.labels).gaugeValue x.name x.labels = v := by
  have filed : key y.name y.labels = key x.name x.labels := same
  simp [gauge, gaugeValue, on, filed, lookup_upsert_self]

theorem gaugeValue_gauge_other (other : y.key ≠ x.key) :
    (m.gauge y.name v y.labels).gaugeValue x.name x.labels = m.gaugeValue x.name x.labels := by
  unfold gauge
  split
  · exact congrArg (·.getD (.whole 0)) (lookup_upsert_other _ _ (Ne.symm other) _)
  · rfl

end

/-! ### Runs -/

theorem run_concat (m : Metrics) (past : List Call) (c : Call) :
    m.run (c :: past).reverse = (m.run past.reverse).call c := by
  simp [run]

theorem run_enabled (past : List Call) : (new.run past.reverse).enabled = isOn past := by
  induction past with
  | nil => rfl
  | cons c past ih =>
    rw [run_concat]
    cases c with
    | inc x v =>
      simp only [call, inc, isOn]
      split
      · exact ih
      · exact ih
    | gauge x v =>
      simp only [call, gauge, isOn]
      split
      · exact ih
      · exact ih
    | reset => exact ih
    | enable on => rfl

theorem total_concat (values : List Number) (v : Number) : total (values ++ [v]) = (total values).add v := by
  simp [total]

theorem heard_cons {c : Call} (past : List Call) (still : c ≠ .reset) :
    heard (c :: past) = if isOn past then c :: heard past else heard past := by
  cases c with
  | reset => exact absurd rfl still
  | inc | gauge | enable => rfl

theorem added_cons (among : Measure → Bool) (c : Call) (past : List Call) (still : c ≠ .reset) :
    added among (c :: past) = added among past ++ if isOn past then (c.adds? among).toList else [] := by
  unfold added
  rw [heard_cons past still]
  split
  · cases adds : c.adds? among <;> simp [adds]
  · simp

theorem lastSet_cons (among : Measure → Bool) (c : Call) (past : List Call) (still : c ≠ .reset) :
    lastSet among (c :: past) = (if isOn past then c.sets? among else none).or (lastSet among past) := by
  unfold lastSet
  rw [heard_cons past still]
  split
  · cases sets : c.sets? among <;> simp [sets]
  · rfl

/-- A counter shows the total of what has been added under its text. -/
theorem run_counter (past : List Call) (x : Measure) : (new.run past.reverse).counter x.name x.labels =
    total (added (fun y => y.key = x.key) past) := by
  induction past with
  | nil => rfl
  | cons c past ih =>
    rw [run_concat]
    have enabled := run_enabled past
    generalize new.run past.reverse = m at *
    cases c with
    | reset => rfl
    | enable on =>
      rw [added_cons _ (.enable on) _ nofun]
      simpa [Call.adds?, call, counter] using ih
    | gauge y v =>
      have kept : (m.gauge y.name v y.labels).counters = m.counters := by
        unfold gauge
        split <;> rfl
      rw [added_cons _ (.gauge y v) _ nofun]
      simpa [Call.adds?, call, counter, kept] using ih
    | inc y v =>
      rw [added_cons _ (.inc y v) _ nofun]
      cases on : isOn past with
      | false =>
        have kept : m.inc y.name y.labels v = m := by simp [inc, enabled, on]
        simpa [call, kept] using ih
      | true =>
        by_cases same : y.key = x.key
        · simp only [Call.adds?, same, decide_true, if_true, Option.toList, total_concat, ← ih]
          exact counter_inc_same (enabled.trans on) same
        · simpa [call, Call.adds?, same, counter_inc_other same] using ih

/-- A gauge shows what has been set last under its text. -/
theorem run_gauge (past : List Call) (x : Measure) : (new.run past.reverse).gaugeValue x.name x.labels =
    (lastSet (fun y => y.key = x.key) past).getD (.whole 0) := by
  induction past with
  | nil => rfl
  | cons c past ih =>
    rw [run_concat]
    have enabled := run_enabled past
    generalize new.run past.reverse = m at *
    cases c with
    | reset => rfl
    | enable on =>
      rw [lastSet_cons _ (.enable on) _ nofun]
      simpa [Call.sets?, call, gaugeValue] using ih
    | inc y v =>
      have kept : (m.inc y.name y.labels v).gauges = m.gauges := by
        unfold inc
        split <;> rfl
      rw [lastSet_cons _ (.inc y v) _ nofun]
      simpa [Call.sets?, call, gaugeValue, kept] using ih
    | gauge y v =>
      rw [lastSet_cons _ (.gauge y v) _ nofun]
      cases on : isOn past with
      | false =>
        have kept : m.gauge y.name v y.labels = m := by simp [gauge, enabled, on]
        simpa [call, kept] using ih
      | true =>
        by_cases same : y.key = x.key
        · simp only [Call.sets?, same, decide_true, if_true, Option.some_or, Option.getD_some]
          exact gaugeValue_gauge_same (enabled.trans on) same
        · simpa [call, Call.sets?, same, gaugeValue_gauge_other same] using ih

/-! ### Texts -/

/-- What stands before the first separator, and what after it. -/
theorem cut_unique {c : Char} {as bs as' bs' : List Char} (free : c ∉ as) (free' : c ∉ as')
    (same : as ++ c :: bs = as' ++ c :: bs') : as = as' ∧ bs = bs' := by
  have front : ∀ (xs ys : List Char), c ∉ xs → (xs ++ c :: ys).takeWhile (· != c) = xs := by
    intro xs ys free
    rw [List.takeWhile_append_of_pos fun d mem => by simpa using fun eq : d = c => free (eq ▸ mem)]
    simp
  have fronts : as = as' := by rw [← front as bs free, same, front as' bs' free']
  subst fronts
  exact ⟨rfl, by simpa using same⟩

/-- The labels are put in ascending order. -/
theorem insertLabel_perm (l : String × String) (ls : Labels) : (insertLabel l ls).Perm (l :: ls) := by
  induction ls with
  | nil => exact .refl _
  | cons m rest ih =>
    unfold insertLabel
    split
    · exact (ih.cons m).trans (.swap l m rest)
    · exact .refl _

theorem sortLabels_perm (ls : Labels) : (sortLabels ls).Perm ls := by
  induction ls with
  | nil => exact .refl _
  | cons l ls ih => exact (insertLabel_perm l (sortLabels ls)).trans (ih.cons l)

theorem insertLabel_sorted {l : String × String} {ls : Labels} (sorted : ls.Pairwise (·.1 < ·.1))
    (new : l.1 ∉ ls.map (·.1)) : (insertLabel l ls).Pairwise (·.1 < ·.1) := by
  induction ls with
  | nil => simp [insertLabel]
  | cons m rest ih =>
    obtain ⟨first, sorted'⟩ := List.pairwise_cons.1 sorted
    have apart : l.1 ≠ m.1 ∧ l.1 ∉ rest.map (·.1) := by simpa using new
    unfold insertLabel
    split
    · rename_i lower
      refine List.pairwise_cons.2 ⟨fun k mem => ?_, ih sorted' apart.2⟩
      rcases List.mem_cons.1 ((insertLabel_perm l rest).mem_iff.1 mem) with rfl | mem
      · exact lower
      · exact first k mem
    · rename_i higher
      have lower : l.1 < m.1 := lt_of_le_of_ne (not_lt.1 higher) apart.1
      refine List.pairwise_cons.2 ⟨fun k mem => ?_, sorted⟩
      rcases List.mem_cons.1 mem with rfl | mem
      · exact lower
      · exact lower.trans (first k mem)

theorem sortLabels_sorted {ls : Labels} (nodup : (ls.map (·.1)).Nodup) : (sortLabels ls).Pairwise (·.1 < ·.1) := by
  induction ls with
  | nil => exact .nil
  | cons l ls ih =>
    obtain ⟨new, nodup'⟩ := List.nodup_cons.1 nodup
    refine insertLabel_sorted (ih nodup') fun mem => new ?_
    exact ((sortLabels_perm ls).map _).mem_iff.1 mem

end Metrics

namespace Measure
open Metrics

theorem mem_labels_iff {ls : Labels} (nodup : (ls.map (·.1)).Nodup) (l v : String) :
    (l, v) ∈ ls ↔ ls.lookup l = some v := by
  induction ls with
  | nil => simp
  | cons m rest ih =>
    obtain ⟨k, x⟩ := m
    obtain ⟨new, nodup'⟩ := List.nodup_cons.1 nodup
    by_cases same : l = k
    · subst same
      have absent : (l, v) ∉ rest := fun mem => new (List.mem_map.2 ⟨(l, v), mem, rfl⟩)
      simp [absent, eq_comm]
    · have apart : (l == k) = false := by simpa using same
      rw [List.lookup_cons, apart, ← ih nodup']
      simp [same]

/-- Label maps are the same when their lists are, up to the order. -/
theorem same_iff_perm (x y : Measure) : x.Same y ↔ x.name = y.name ∧ x.labels.Perm y.labels := by
  have maps : (∀ l, x.labels.lookup l = y.labels.lookup l) ↔ x.labels.Perm y.labels := by
    rw [List.perm_ext_iff_of_nodup (.of_map _ x.nodup) (.of_map _ y.nodup)]
    constructor
    · rintro same ⟨l, v⟩
      rw [mem_labels_iff x.nodup, mem_labels_iff y.nodup, same]
    · intro same l
      refine Option.ext fun v => ?_
      rw [← mem_labels_iff x.nodup, ← mem_labels_iff y.nodup, same]
  rw [Same, maps]

instance (x y : Measure) : Decidable (x.Same y) := decidable_of_iff _ (same_iff_perm x y).symm

theorem sortLabels_eq_iff (x y : Measure) : sortLabels x.labels = sortLabels y.labels ↔ x.labels.Perm y.labels := by
  constructor
  · intro same
    exact (sortLabels_perm _).symm.trans (same ▸ sortLabels_perm _)
  · intro perm
    refine List.Perm.eq_of_pairwise (fun a b _ _ less more => absurd more (String.lt_asymm less))
      (sortLabels_sorted x.nodup) (sortLabels_sorted y.nodup) ?_
    exact (sortLabels_perm _).trans (perm.trans (sortLabels_perm _).symm)

/-! ### Keys -/

/-- A label as it is written into a key. -/
def written (l : String × String) : List Char := l.1.toList ++ '=' :: l.2.toList

theorem written_injective {l m : String × String} (plain : '=' ∉ l.1.toList) (plain' : '=' ∉ m.1.toList)
    (same : written l = written m) : l = m := by
  obtain ⟨names, values⟩ := cut_unique plain plain' same
  exact Prod.ext (String.toList_inj.1 names) (String.toList_inj.1 values)

theorem map_written_inj {ls ms : Labels} (plain : ∀ l ∈ ls, '=' ∉ l.1.toList) (plain' : ∀ m ∈ ms, '=' ∉ m.1.toList)
    (same : ls.map written = ms.map written) : ls = ms := by
  induction ls generalizing ms with
  | nil => exact (List.map_eq_nil_iff.1 same.symm).symm
  | cons l ls ih =>
    cases ms with
    | nil => cases same
    | cons m ms =>
      obtain ⟨first, rest⟩ := List.cons.inj same
      obtain ⟨here, plain⟩ := List.forall_mem_cons.1 plain
      obtain ⟨here', plain'⟩ := List.forall_mem_cons.1 plain'
      rw [written_injective here here' first, ih plain plain' rest]

theorem key_bare {x : Measure} (bare : x.labels = []) : x.key = x.name := by
  simp [key, Metrics.key, bare]

theorem key_labelled {x : Measure} (labelled : x.labels ≠ []) : x.key.toList =
    x.name.toList ++ '{' :: ([','].intercalate ((sortLabels x.labels).map written) ++ ['}']) := by
  have some : x.labels.isEmpty = false := by simpa using labelled
  have parts : (fun l : String × String => l.1.toList ++ '=' :: l.2.toList) = written := rfl
  simp [key, Metrics.key, some, String.toList_intercalate, Function.comp_def, parts]

variable {x y : Measure}

/-- What stands between the braces of a plain key tells the labels. -/
theorem IsPlain.parts (h : x.IsPlain) (labelled : x.labels ≠ []) :
    ([','].intercalate ((sortLabels x.labels).map written)).splitOn ',' = (sortLabels x.labels).map written := by
  refine List.splitOn_intercalate ',' (fun part mem => ?_) fun none => ?_
  · obtain ⟨l, listed, rfl⟩ := List.mem_map.1 mem
    obtain ⟨-, name, value⟩ := h.label l ((sortLabels_perm _).mem_iff.1 listed)
    simp [written, name, value]
  · have nil : sortLabels x.labels = [] := List.map_eq_nil_iff.1 none
    exact labelled (List.perm_nil.1 (nil ▸ (sortLabels_perm x.labels).symm))

theorem IsPlain.sorted (h : x.IsPlain) : ∀ l ∈ sortLabels x.labels, '=' ∉ l.1.toList :=
  fun l mem => (h.label l ((sortLabels_perm _).mem_iff.1 mem)).1

/-- The same measurement is filed under one text, whatever the order of its labels. -/
theorem Same.key_eq (h : x.Same y) : x.key = y.key := by
  obtain ⟨name, perm⟩ := (same_iff_perm x y).1 h
  have sorted := (sortLabels_eq_iff x y).2 perm
  by_cases bare : x.labels = []
  · have bare' : y.labels = [] := List.perm_nil.1 (bare ▸ perm.symm)
    rw [key_bare bare, key_bare bare', name]
  · have labelled : y.labels ≠ [] := fun none => bare (List.perm_nil.1 (none ▸ perm))
    rw [← String.toList_inj, key_labelled bare, key_labelled labelled, name, sorted]

/-- Where no separator is taken for one, different measurements are filed under different texts. -/
theorem key_eq_iff (h : x.IsPlain) (h' : y.IsPlain) : x.key = y.key ↔ x.Same y := by
  refine ⟨fun same => ?_, Same.key_eq⟩
  have apart : ∀ {u v : Measure}, u.IsPlain → u.labels = [] → v.labels ≠ [] → u.key ≠ v.key := by
    intro u v plain bare labelled same
    have brace : '{' ∈ v.key.toList := by simp [key_labelled labelled]
    rw [← same, key_bare bare] at brace
    exact plain.name brace
  rw [same_iff_perm]
  by_cases bare : x.labels = []
  · by_cases bare' : y.labels = []
    · rw [key_bare bare, key_bare bare'] at same
      exact ⟨same, by rw [bare, bare']⟩
    · exact absurd same (apart h bare bare')
  · by_cases bare' : y.labels = []
    · exact absurd same.symm (apart h' bare' bare)
    · have texts := congrArg String.toList same
      rw [key_labelled bare, key_labelled bare'] at texts
      obtain ⟨names, bodies⟩ := cut_unique h.name h'.name texts
      have parts := congrArg (List.splitOn ',') (List.append_cancel_right bodies)
      rw [h.parts bare, h'.parts bare'] at parts
      have sorted := map_written_inj h.sorted h'.sorted parts
      exact ⟨String.toList_inj.1 names, (sortLabels_eq_iff x y).1 sorted⟩

end Measure

namespace Metrics
open InkPreview.Measure

variable {p q : Measure → Bool} {past : List Call}

theorem Call.congr {c : Call} (same : ∀ y ∈ c.measure?, p y = q y) :
    c.adds? p = c.adds? q ∧ c.sets? p = c.sets? q := by
  cases c with
  | inc y v | gauge y v =>
    have here : p y = q y := same y rfl
    simp [adds?, sets?, here]
  | reset | enable => exact ⟨rfl, rfl⟩

theorem heard_congr (same : ∀ c ∈ past, ∀ y ∈ c.measure?, p y = q y) :
    added p past = added q past ∧ lastSet p past = lastSet q past := by
  induction past with
  | nil => exact ⟨rfl, rfl⟩
  | cons c past ih =>
    obtain ⟨first, rest⟩ := List.forall_mem_cons.1 same
    obtain ⟨adds, sets⟩ := ih rest
    by_cases reset : c = .reset
    · subst reset
      exact ⟨rfl, rfl⟩
    · rw [added_cons p c past reset, added_cons q c past reset, lastSet_cons p c past reset,
        lastSet_cons q c past reset, adds, sets, (Call.congr first).1, (Call.congr first).2]
      exact ⟨rfl, rfl⟩

/-- After any calls a counter shows the total of what has been added under its text, and a gauge what has been
set last under its text, since the last reset and while measurements were taken. Where no separator stands in the
names and labels of the calls, that is what has been added to, or set last for, the same name and the same
labels. -/
theorem run_measured (calls : List Call) (x : Measure) :
    ((new.run calls).counter x.name x.labels = total (added (fun y => y.key = x.key) calls.reverse) ∧
      (new.run calls).gaugeValue x.name x.labels =
        (lastSet (fun y => y.key = x.key) calls.reverse).getD (.whole 0)) ∧
    (x.IsPlain → (∀ c ∈ calls, ∀ y ∈ c.measure?, y.IsPlain) →
      (new.run calls).counter x.name x.labels = total (added (fun y => y.Same x) calls.reverse) ∧
      (new.run calls).gaugeValue x.name x.labels = (lastSet (fun y => y.Same x) calls.reverse).getD (.whole 0)) := by
  have counter := run_counter calls.reverse x
  have gauge := run_gauge calls.reverse x
  rw [List.reverse_reverse] at counter gauge
  refine ⟨⟨counter, gauge⟩, fun plain all => ?_⟩
  have same : ∀ c ∈ calls.reverse, ∀ y ∈ c.measure?, decide (y.key = x.key) = decide (y.Same x) := by
    intro c mem y of
    simp only [key_eq_iff (all c (List.mem_reverse.1 mem) y of) plain]
  obtain ⟨adds, sets⟩ := heard_congr same
  exact ⟨adds ▸ counter, sets ▸ gauge⟩

/-- Failures of two kinds are counted, one of them while no measurements are taken. -/
def failures : List Call :=
  let failed (kind : String) : Measure := ⟨"compile.failed", [("kind", kind)], by simp⟩
  [.inc (failed "io_error") (.whole 1), .inc (failed "tool_missing") (.whole 1), .enable false,
    .inc (failed "io_error") (.whole 1), .enable true, .inc (failed "io_error") (.whole 2)]

/-- Of the one kind, a failure and then two more have been counted. -/
theorem failures_measured : (new.run failures).counter "compile.failed" [("kind", "io_error")] = .whole 3 := by
  have plain : ∀ c ∈ failures, ∀ y ∈ c.measure?, y.IsPlain := by
    intro c mem y of
    simp only [failures, List.mem_cons, List.not_mem_nil, or_false] at mem
    rcases mem with rfl | rfl | rfl | rfl | rfl | rfl
    all_goals cases of
    all_goals exact ⟨by decide, by decide⟩
  have measured := (run_measured failures ⟨"compile.failed", [("kind", "io_error")], by simp⟩).2
    ⟨by decide, by decide⟩ plain
  exact measured.1.trans (by decide)

/-- A name with braces is filed under the text of another name with a label. -/
theorem counters_collide : ¬ ∀ (calls : List Call) (x : Measure),
    (new.run calls).counter x.name x.labels = total (added (fun y => y.Same x) calls.reverse) := by
  intro refines
  have claimed := refines [.inc ⟨"a", [("b", "c")], by simp⟩ (.whole 1)] ⟨"a\x7bb=c\x7d", [], by simp⟩
  revert claimed
  decide

end Metrics
end InkPreview
