import InkPreview.Decimal.Number
/-!
Counters and gauges. A measurement is filed under its name and its labels in order of their names.
-/
namespace InkPreview

open Decimal (Number)

abbrev Labels := List (String × String)

structure Metrics where
  enabled : Bool
  counters : List (String × Number)
  gauges : List (String × Number)
  deriving Repr, Inhabited

namespace Metrics

def new : Metrics := ⟨true, [], []⟩

/-- Inserts a label among labels in ascending order. -/
def insertLabel (l : String × String) : Labels → Labels
  | [] => [l]
  | m :: rest => if m.1 < l.1 then m :: insertLabel l rest else l :: m :: rest

def sortLabels (ls : Labels) : Labels := ls.foldr insertLabel []

/-- The text a measurement is filed under. -/
def key (name : String) (labels : Labels) : String :=
  if labels.isEmpty then name
  else
    let parts := (sortLabels labels).map fun l => l.1 ++ "=" ++ l.2
    name ++ "\x7b" ++ ",".intercalate parts ++ "\x7d"

/-- The table with `f` applied to the entry of a key, a missing entry being taken as `d`. -/
def upsert (d : Number) (f : Number → Number) (k : String) :
    List (String × Number) → List (String × Number)
  | [] => [(k, f d)]
  | (k', v) :: rest => if k' = k then (k, f v) :: rest else (k', v) :: upsert d f k rest

def inc (m : Metrics) (name : String) (labels : Labels) (value : Number) : Metrics :=
  if m.enabled then { m with counters := upsert (.whole 0) (·.add value) (key name labels) m.counters }
  else m

def gauge (m : Metrics) (name : String) (value : Number) (labels : Labels) : Metrics :=
  if m.enabled then { m with gauges := upsert (.whole 0) (fun _ => value) (key name labels) m.gauges }
  else m

def counter (m : Metrics) (name : String) (labels : Labels) : Number :=
  (m.counters.lookup (key name labels)).getD (.whole 0)

def gaugeValue (m : Metrics) (name : String) (labels : Labels) : Number :=
  (m.gauges.lookup (key name labels)).getD (.whole 0)

def reset (m : Metrics) : Metrics := { m with counters := [], gauges := [] }

/-- Adds one to a counter without labels. -/
def count (m : Metrics) (name : String) : Metrics := m.inc name [] (.whole 1)

/-- Adds one to a counter with one label. -/
def countBy (m : Metrics) (name label value : String) : Metrics :=
  m.inc name [(label, value)] (.whole 1)

end Metrics
end InkPreview
