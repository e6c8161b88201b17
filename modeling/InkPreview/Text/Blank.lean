/-!
Blank characters, and text with its blank ends cut off. Main statement: `trim` leaves the empty
text exactly for blank text.
-/
namespace InkPreview.Text

/-- The characters that count as blank: the ASCII controls that move the cursor or separate
records, the space, and the spaces and line separators of Unicode. -/
def isBlank (c : Char) : Bool :=
  let n := c.toNat
  (0x9 ≤ n && n ≤ 0xd) || (0x1c ≤ n && n ≤ 0x20) || n == 0x85 || n == 0xa0 || n == 0x1680 ||
    (0x2000 ≤ n && n ≤ 0x200a) || n == 0x2028 || n == 0x2029 || n == 0x202f || n == 0x205f ||
    n == 0x3000

def trimStart (cs : List Char) : List Char := cs.dropWhile isBlank

def trimEnd (cs : List Char) : List Char := (cs.reverse.dropWhile isBlank).reverse

def trim (cs : List Char) : List Char := trimEnd (trimStart cs)

theorem dropWhile_eq_nil {p : Char → Bool} {cs : List Char} :
    cs.dropWhile p = [] ↔ ∀ c ∈ cs, p c = true := by
  induction cs with
  | nil => simp
  | cons c cs ih =>
    by_cases h : p c = true
    · simp [h, ih]
    · simp [h]

theorem trimEnd_eq_nil {cs : List Char} : trimEnd cs = [] ↔ ∀ c ∈ cs, isBlank c = true := by
  rw [trimEnd, List.reverse_eq_nil_iff, dropWhile_eq_nil]
  simp

theorem trim_eq_nil {cs : List Char} : trim cs = [] ↔ ∀ c ∈ cs, isBlank c = true := by
  rw [trim, trimEnd_eq_nil]
  constructor
  · intro h
    by_cases hn : trimStart cs = []
    · exact dropWhile_eq_nil.1 hn
    · have := List.head_dropWhile_not isBlank hn
      have hh := h _ (List.head_mem hn)
      simp_all [trimStart]
  · intro h c hc
    exact h c ((List.dropWhile_sublist isBlank).mem hc)

end InkPreview.Text
