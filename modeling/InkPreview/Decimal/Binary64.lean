/-!
Binary floating point numbers of 64 bits, read and compared by exact integer arithmetic.
A finite number is `mantissa * 2 ^ exponent` up to its sign.
-/
namespace InkPreview.Decimal

structure Binary64 where
  bits : Nat
  deriving DecidableEq, Repr

/-- The quotient rounded to the nearest whole number, a half to the even neighbour. -/
def roundDiv (num den : Nat) : Nat :=
  let q := num / den
  let r := num % den
  if 2 * r < den then q else if den < 2 * r then q + 1 else q + q % 2

namespace Binary64

def signBit : Nat := Nat.pow 2 63
def infinityBits : Nat := 0x7ff * Nat.pow 2 52

def isNegative (x : Binary64) : Bool := signBit ≤ x.bits
def magnitude (x : Binary64) : Nat := x.bits % signBit
def isNaN (x : Binary64) : Bool := infinityBits < x.magnitude
def isInfinite (x : Binary64) : Bool := x.magnitude = infinityBits
def isFinite (x : Binary64) : Bool := x.magnitude < infinityBits
def isZero (x : Binary64) : Bool := x.magnitude = 0

def mantissa (x : Binary64) : Nat :=
  if x.magnitude < Nat.pow 2 52 then x.magnitude else x.magnitude % Nat.pow 2 52 + Nat.pow 2 52

def exponent (x : Binary64) : Int :=
  if x.magnitude < Nat.pow 2 52 then -1074 else (x.magnitude / Nat.pow 2 52 : Nat) - 1075

def withSign (negative : Bool) (magnitude : Nat) : Binary64 :=
  ⟨(if negative then signBit else 0) + magnitude⟩

def nan : Binary64 := ⟨infinityBits + Nat.pow 2 51⟩
def infinity (negative : Bool) : Binary64 := withSign negative infinityBits

/-- `a * 2 ^ e` as a fraction. -/
def scaled (a : Nat) (e : Int) : Nat × Nat :=
  if 0 ≤ e then (a * Nat.pow 2 e.toNat, 1) else (a, Nat.pow 2 (-e).toNat)

/-- The magnitude nearest to a fraction. The exponent is chosen so that the quotient has 53
binary digits, or fewer at the lower end of the range; a carry out of the mantissa then lands in
the exponent field by itself. -/
def nearestMagnitude (num den : Nat) : Nat :=
  if num = 0 then 0
  else
    let e := (Nat.log2 num : Int) - Nat.log2 den
    let small := if 0 ≤ e then num < den * Nat.pow 2 e.toNat else num * Nat.pow 2 (-e).toNat < den
    let q := max ((if small then e - 1 else e) - 52) (-1074)
    let m := if 0 ≤ q then roundDiv num (den * Nat.pow 2 q.toNat) else roundDiv (num * Nat.pow 2 (-q).toNat) den
    min ((q + 1074).toNat * Nat.pow 2 52 + m) infinityBits

def ofRatio (negative : Bool) (num den : Nat) : Binary64 :=
  withSign negative (nearestMagnitude num den)

/-- The number nearest to `digits * 10 ^ exponent`. Exponents far outside the range are settled
without computing the power. -/
def ofDecimal (negative : Bool) (digits : Nat) (exponent : Int) : Binary64 :=
  let size := (Nat.log2 digits : Int) * 3 / 10 + exponent
  if digits = 0 then withSign negative 0
  else if 400 < size then infinity negative
  else if size < -400 then withSign negative 0
  else if 0 ≤ exponent then ofRatio negative (digits * Nat.pow 10 exponent.toNat) 1
  else ofRatio negative digits (Nat.pow 10 (-exponent).toNat)

def ofInt (n : Int) : Binary64 := ofDecimal (n < 0) n.natAbs 0

/-- The exact value in units of `2 ^ -1074`. -/
def units (x : Binary64) : Int :=
  let a := x.mantissa * Nat.pow 2 (x.exponent + 1074).toNat
  if x.isNegative then -a else a

/-- The exact sum of two finite numbers, rounded once. -/
def add (x y : Binary64) : Binary64 :=
  if x.isNaN || y.isNaN then nan
  else if x.isInfinite then (if y.isInfinite && x != y then nan else x)
  else if y.isInfinite then y
  else
    let s := x.units + y.units
    ofRatio (s < 0 || (s = 0 && x.isNegative && y.isNegative)) s.natAbs (Nat.pow 2 1074)

end Binary64
end InkPreview.Decimal
