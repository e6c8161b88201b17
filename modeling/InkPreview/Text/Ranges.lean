/-!
Sets of characters as tables of code points.
-/
namespace InkPreview.Text

/-- Looks a code point up in ascending closed ranges. -/
def inRanges (n : Nat) : List (Nat × Nat) → Bool
  | [] => false
  | (lo, hi) :: rest => if n < lo then false else n ≤ hi || inRanges n rest

end InkPreview.Text
