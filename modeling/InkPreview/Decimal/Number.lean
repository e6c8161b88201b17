import InkPreview.Decimal.Digits
/-!
Numbers as they are given and shown: whole numbers of any size and binary floating point numbers.
-/
namespace InkPreview.Decimal

/-- How a digit string is laid out: which places of the leading digit are written positionally,
and whether a whole number keeps a point and a zero. -/
structure Layout where
  firstPlace : Int
  lastPlace : Int
  keepsPoint : Bool

/-- Numbers between a ten-thousandth and ten to the sixteenth are written positionally. -/
def plainLayout : Layout := ⟨-4, 15, true⟩

/-- Six digits, positional from a ten-thousandth to just under a million. -/
def generalLayout : Layout := ⟨-4, 5, false⟩

def Layout.exponentText (e : Int) : String :=
  let body := toString e.natAbs
  (if e < 0 then "e-" else "e+") ++ (if body.length < 2 then "0" ++ body else body)

def zerosText (n : Nat) : String := String.ofList (List.replicate n '0')

def Layout.write (l : Layout) (s : Scientific) : String :=
  let body := toString s.digits
  let place : Int := s.exponent + body.length - 1
  if s.digits = 0 then (if l.keepsPoint then "0.0" else "0")
  else if place < l.firstPlace || l.lastPlace < place then
    let cs := body.toList
    let fraction := cs.drop 1
    String.ofList (cs.take 1) ++ (if fraction.isEmpty then "" else "." ++ String.ofList fraction) ++
      Layout.exponentText place
  else if place < 0 then "0." ++ zerosText (-place - 1).toNat ++ body
  else if 0 ≤ s.exponent then
    body ++ zerosText s.exponent.toNat ++ (if l.keepsPoint then ".0" else "")
  else
    let cs := body.toList
    String.ofList (cs.take (place + 1).toNat) ++ "." ++ String.ofList (cs.drop (place + 1).toNat)

def Binary64.write (l : Layout) (digits : Binary64 → Scientific) (x : Binary64) : String :=
  if x.isNaN then "nan"
  else
    (if x.isNegative then "-" else "") ++ (if x.isInfinite then "inf" else l.write (digits x))

/-- The shortest text that reads back. -/
def Binary64.plain (x : Binary64) : String := x.write plainLayout shortest

/-- The text with six significant digits. -/
def Binary64.general (x : Binary64) : String := x.write generalLayout (significant 6)

inductive Number
  | whole (n : Int)
  | real (x : Binary64)
  deriving DecidableEq, Repr

namespace Number

def toReal : Number → Binary64
  | whole n => Binary64.ofInt n
  | real x => x

def text : Number → String
  | whole n => toString n
  | real x => x.plain

def general (x : Number) : String := x.toReal.general

def isZero : Number → Bool
  | whole n => n = 0
  | real x => x.isZero

def isNegative : Number → Bool
  | whole n => n < 0
  | real x => x.isNegative && !x.isZero && !x.isNaN

/-- Whole numbers add exactly; otherwise both are taken as floating point numbers. -/
def add : Number → Number → Number
  | whole a, whole b => whole (a + b)
  | a, b => real (a.toReal.add b.toReal)

/-- The nearest whole count of millionths. -/
def millionths : Number → Int
  | whole n => n * 1000000
  | real x =>
    if x.isFinite then
      let (num, den) := Binary64.scaled x.mantissa x.exponent
      let n := roundDiv (num * 1000000) den
      if x.isNegative then -n else n
    else 0

/-- A floating point number without fraction becomes a whole number. -/
def simplify : Number → Number
  | whole n => whole n
  | real x =>
    if x.isFinite then
      let (num, den) := Binary64.scaled x.mantissa x.exponent
      if num % den = 0 then whole (if x.isNegative then -(num / den : Nat) else (num / den : Nat))
      else real x
    else real x

end Number
end InkPreview.Decimal
