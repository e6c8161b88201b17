import InkPreview.Decimal.Number
import InkPreview.Text.Blank
import InkPreview.Text.Case
import InkPreview.Text.Digit
/-!
Numbers as people write them: digits of any script, a single underscore between two digits, blanks
around the whole.
-/
namespace InkPreview.Decimal.Literal

/-- Blanks that may stand around a number. The separators of records do not count. -/
def isMargin (c : Char) : Bool := Text.isBlank c && !(0x1c ≤ c.toNat && c.toNat ≤ 0x1f)

def withoutMargins (cs : List Char) : List Char :=
  ((cs.dropWhile isMargin).reverse.dropWhile isMargin).reverse

/-- A digit of any script as the plain digit of its value. -/
def plainDigit (c : Char) : Char :=
  match Text.digitValue? c with
  | some n => Nat.digitChar n
  | none => c

def body (s : String) : List Char := (withoutMargins s.toList).map plainDigit

/-- Takes a sign off the front; the answer is whether it is a minus. -/
def splitSign : List Char → Bool × List Char
  | '-' :: rest => (true, rest)
  | '+' :: rest => (false, rest)
  | cs => (false, cs)

/-- Drops underscores, each of which has to stand between two digits. -/
def joinDigits (afterDigit : Bool) : List Char → Option (List Char)
  | [] => some []
  | '_' :: c :: rest => if afterDigit && c.isDigit then joinDigits false (c :: rest) else none
  | ['_'] => none
  | c :: rest => (joinDigits c.isDigit rest).map (c :: ·)

def digitsValue (ds : List Char) : Nat := ds.foldl (fun n d => n * 10 + (d.toNat - 48)) 0

/-- Why a text is no whole number. -/
inductive Fault
  | malformed
  | tooLong (digits : Nat)
  deriving DecidableEq, Repr

/-- A whole number with at most `limit` digits. Too many digits are refused before anything that
follows them is looked at. -/
def whole (limit : Nat) (s : String) : Except Fault Int :=
  let (negative, cs) := splitSign (body s)
  let isPart (c : Char) : Bool := c.isDigit || c = '_'
  match joinDigits false (cs.takeWhile isPart) with
  | none => .error .malformed
  | some ds =>
    if ds.isEmpty then .error .malformed
    else if limit < ds.length then .error (.tooLong ds.length)
    else if (cs.dropWhile isPart).isEmpty then
      .ok (if negative then -(digitsValue ds : Int) else digitsValue ds)
    else .error .malformed

/-- The words for the infinities and for not-a-number, in any case. -/
def word? (negative : Bool) (cs : List Char) : Option Binary64 :=
  match Text.lower (String.ofList cs) with
  | "inf" | "infinity" => some (.infinity negative)
  | "nan" => some .nan
  | _ => none

/-- The exponent after the digits of a number, or none at the end of the text. -/
def exponent? : List Char → Option Int
  | [] => some 0
  | e :: rest =>
    if e = 'e' || e = 'E' then
      let (negative, ds) := splitSign rest
      if ds.isEmpty || !ds.all Char.isDigit then none
      else some (if negative then -(digitsValue ds : Int) else digitsValue ds)
    else none

/-- Digits with at most one point, which may come first or last, and an exponent. -/
def decimal? (negative : Bool) (cs : List Char) : Option Binary64 :=
  let ds := cs.takeWhile Char.isDigit
  let rest := cs.dropWhile Char.isDigit
  let (fs, rest) := match rest with
    | '.' :: more => (more.takeWhile Char.isDigit, more.dropWhile Char.isDigit)
    | more => ([], more)
  if ds.isEmpty && fs.isEmpty then none
  else (exponent? rest).map fun e =>
    Binary64.ofDecimal negative (digitsValue (ds ++ fs)) (e - fs.length)

/-- A number with a fraction or an exponent, or one of the words. -/
def real? (s : String) : Option Binary64 :=
  let (negative, cs) := splitSign (body s)
  match word? negative cs with
  | some x => some x
  | none => (joinDigits false cs).bind (decimal? negative)

end InkPreview.Decimal.Literal
