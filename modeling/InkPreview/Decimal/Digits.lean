import InkPreview.Decimal.Binary64
/-!
Which decimal digits stand for a binary number: the fewest that read back, or a fixed count of
them. Both are found on the grid of multiples of a power of ten.
-/
namespace InkPreview.Decimal

/-- `digits * 10 ^ exponent`. -/
structure Scientific where
  digits : Nat
  exponent : Int
  deriving DecidableEq, Repr

def digitCount (n : Nat) : Nat := (Nat.toDigits 10 n).length

/-- Trailing zeros move into the exponent. -/
def Scientific.strip : Nat → Scientific → Scientific
  | 0, s => s
  | fuel + 1, s =>
    if s.digits ≠ 0 && s.digits % 10 = 0 then strip fuel ⟨s.digits / 10, s.exponent + 1⟩ else s

/-- The place of the leading digit: `10 ^ place ≤ num / den < 10 ^ (place + 1)`. -/
def leadingPlace (num den : Nat) : Int :=
  if den ≤ num then (digitCount (num / den) : Int) - 1
  else
    let guess : Nat := digitCount (den / num)
    if den ≤ num * Nat.pow 10 (guess - 1) then -((guess : Int) - 1) else -guess

/-- `num / den` in units of `10 ^ e`. -/
def inUnits (num den : Nat) (e : Int) : Nat × Nat :=
  if 0 ≤ e then (num, den * Nat.pow 10 e.toNat) else (num * Nat.pow 10 (-e).toNat, den)

/-- A fixed count of digits, the nearest and on a tie the even one. -/
def roundedDigits (count num den : Nat) : Scientific :=
  let e := leadingPlace num den - (count - 1 : Nat)
  let (a, b) := inUnits num den e
  Scientific.strip count ⟨roundDiv a b, e⟩

/-- The digit strings of `count` digits on both sides of the value, the nearer one first. -/
def neighbours (count num den : Nat) : List Scientific :=
  let e := leadingPlace num den - (count - 1 : Nat)
  let (a, b) := inUnits num den e
  let below := a / b
  let near := roundDiv a b
  [⟨near, e⟩, ⟨if near = below then below + 1 else below, e⟩]

/-- The first digit string, shortest first, that reads back as `magnitude`. -/
def shortestFrom (magnitude num den : Nat) : Nat → Nat → Scientific
  | 0, count => roundedDigits count num den
  | fuel + 1, count =>
    let readsBack (s : Scientific) : Bool := (Binary64.ofDecimal false s.digits s.exponent).bits == magnitude
    match (neighbours count num den).find? readsBack with
    | some s => Scientific.strip 20 s
    | none => shortestFrom magnitude num den fuel (count + 1)

/-- The fewest digits that read back as the number, up to its sign. -/
def shortest (x : Binary64) : Scientific :=
  if x.isZero then ⟨0, 0⟩
  else
    let (num, den) := Binary64.scaled x.mantissa x.exponent
    shortestFrom x.magnitude num den 16 1

/-- Six digits, or whatever count is asked for, of the exact value. -/
def significant (count : Nat) (x : Binary64) : Scientific :=
  if x.isZero then ⟨0, 0⟩
  else
    let (num, den) := Binary64.scaled x.mantissa x.exponent
    roundedDigits count num den

end InkPreview.Decimal
