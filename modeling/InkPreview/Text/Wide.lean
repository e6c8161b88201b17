import InkPreview.Text.Utf8
/-!
Text in bytes whose form has to be found out. Text that starts with plain characters shows by the
zeros among its first bytes how many bytes a character takes and which of them comes first; without
such zeros it takes the usual form, with or without its mark.
-/
namespace InkPreview.Text.Wide

inductive Form
  | usual
  /-- Two bytes a unit. -/
  | pairs (bigFirst : Bool)
  /-- Four bytes a character. -/
  | fours (bigFirst : Bool)
  deriving DecidableEq, Repr

def Form.ofBytes : List UInt8 → Form
  | [a, b] => if a = 0 then .pairs true else if b = 0 then .pairs false else .usual
  | a :: b :: c :: d :: _ =>
    if a = 0 then (if b = 0 then .fours true else .pairs true)
    else if b = 0 then (if c = 0 && d = 0 then .fours false else .pairs false)
    else .usual
  | _ => .usual

def ofBytes (bigFirst : Bool) (bs : List UInt8) : Nat :=
  (if bigFirst then bs else bs.reverse).foldl (fun n b => n * 256 + b.toNat) 0

/-- The values of runs of bytes of one size; bytes that are left over are refused. -/
def values2 (bigFirst : Bool) : List UInt8 → Option (List Nat)
  | [] => some []
  | a :: b :: rest => (values2 bigFirst rest).map (ofBytes bigFirst [a, b] :: ·)
  | _ => none

def values4 (bigFirst : Bool) : List UInt8 → Option (List Nat)
  | [] => some []
  | a :: b :: c :: d :: rest => (values4 bigFirst rest).map (ofBytes bigFirst [a, b, c, d] :: ·)
  | _ => none

def isHigh (n : Nat) : Bool := 0xd800 ≤ n && n < 0xdc00
def isLow (n : Nat) : Bool := 0xdc00 ≤ n && n < 0xe000

/-- A half without its other half is no character. -/
def scalar (n : Nat) : Char := if isHigh n || isLow n then Char.ofNat 0xfffd else Char.ofNat n

/-- Joins each high half with the low half behind it. -/
def joinHalves : List Nat → List Char
  | [] => []
  | [n] => [scalar n]
  | n :: m :: rest =>
    if isHigh n && isLow m then
      Char.ofNat (0x10000 + (n - 0xd800) * 0x400 + (m - 0xdc00)) :: joinHalves rest
    else scalar n :: joinHalves (m :: rest)

/-- The text of the bytes, whatever form they have. -/
def decode (bs : List UInt8) : Option (List Char) :=
  match Form.ofBytes bs with
  | .pairs bigFirst => (values2 bigFirst bs).map joinHalves
  | .fours bigFirst =>
    match values4 bigFirst bs with
    | some ns => if ns.all (· < 0x110000) then some (ns.map scalar) else none
    | none => none
  | .usual => (Utf8.decode (if Utf8.mark.isPrefixOf bs then bs.drop 3 else bs)).toOption

end InkPreview.Text.Wide
