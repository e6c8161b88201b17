import InkPreview.Json.Value
/-!
Reading JSON text. Beside the standard grammar the words for not-a-number and the infinities are
numbers; a repeated key keeps its first place and takes its last value.
-/
namespace InkPreview.Json

open Decimal (Number Binary64)

inductive Fault
  | malformed
  | tooManyDigits (count : Nat)
  | tooDeep (inObject : Bool)
  deriving DecidableEq, Repr

/-- Whole numbers may have this many digits. -/
def digitLimit : Nat := 4300

/-- Lists and objects may be nested this deep. -/
def depthLimit : Nat := 990

abbrev Read (α : Type) := Except Fault (α × List Char)

def isSpace (c : Char) : Bool := c = ' ' || c = '\t' || c = '\n' || c = '\r'

def skipSpace (cs : List Char) : List Char := cs.dropWhile isSpace

def hexValue? (c : Char) : Option Nat :=
  let n := c.toNat
  if 48 ≤ n && n ≤ 57 then some (n - 48)
  else if 97 ≤ n && n ≤ 102 then some (n - 87)
  else if 65 ≤ n && n ≤ 70 then some (n - 55)
  else none

/-- Four hexadecimal digits. -/
def readUnit : List Char → Option (Nat × List Char)
  | a :: b :: c :: d :: rest => do
    let a ← hexValue? a
    let b ← hexValue? b
    let c ← hexValue? c
    let d ← hexValue? d
    pure (((a * 16 + b) * 16 + c) * 16 + d, rest)
  | _ => none

def simpleEscape? : Char → Option Char
  | '"' => some '"'
  | '\\' => some '\\'
  | '/' => some '/'
  | 'b' => some '\x08'
  | 'f' => some '\x0c'
  | 'n' => some '\n'
  | 'r' => some '\r'
  | 't' => some '\t'
  | _ => none

/-- A code unit after its escape, joined with the low half that follows a high half. Texts are sequences of Unicode
scalar values, so half of a pair that stands alone is read as the replacement character. -/
def joinUnits (unit : Nat) (rest : List Char) : Char × List Char :=
  if 0xd800 ≤ unit && unit < 0xdc00 then
    match rest with
    | '\\' :: 'u' :: more =>
      match readUnit more with
      | some (low, more) =>
        if 0xdc00 ≤ low && low < 0xe000 then
          (Char.ofNat (0x10000 + (unit - 0xd800) * 0x400 + (low - 0xdc00)), more)
        else (Char.ofNat 0xfffd, rest)
      | none => (Char.ofNat 0xfffd, rest)
    | _ => (Char.ofNat 0xfffd, rest)
  else if 0xdc00 ≤ unit && unit < 0xe000 then (Char.ofNat 0xfffd, rest)
  else (Char.ofNat unit, rest)

/-- The rest of a string after its opening quote; `acc` holds what was read, last first. -/
def readString : Nat → List Char → List Char → Read String
  | 0, _, _ => .error .malformed
  | _ + 1, _, [] => .error .malformed
  | fuel + 1, acc, c :: rest =>
    if c = '"' then .ok (String.ofList acc.reverse, rest)
    else if c = '\\' then
      match rest with
      | 'u' :: more =>
        match readUnit more with
        | some (unit, more) =>
          let (d, more) := joinUnits unit more
          readString fuel (d :: acc) more
        | none => .error .malformed
      | d :: more =>
        match simpleEscape? d with
        | some e => readString fuel (e :: acc) more
        | none => .error .malformed
      | [] => .error .malformed
    else if c.toNat < 0x20 then .error .malformed
    else readString fuel (c :: acc) rest

def digitsValue (ds : List Char) : Nat := ds.foldl (fun n d => n * 10 + (d.toNat - 48)) 0

/-- The digits of a whole part: a single zero, or a run that starts with another digit. -/
def wholePart : List Char → Option (List Char × List Char)
  | '0' :: rest => some (['0'], rest)
  | cs =>
    let ds := cs.takeWhile Char.isDigit
    if ds.isEmpty then none else some (ds, cs.dropWhile Char.isDigit)

/-- A point with at least one digit; anything else is left for what follows. -/
def fractionPart : List Char → List Char × List Char
  | '.' :: rest =>
    let ds := rest.takeWhile Char.isDigit
    if ds.isEmpty then ([], '.' :: rest) else (ds, rest.dropWhile Char.isDigit)
  | cs => ([], cs)

def exponentDigits (negative : Bool) (cs : List Char) : Option (Int × List Char) :=
  let ds := cs.takeWhile Char.isDigit
  if ds.isEmpty then none
  else
    let n : Int := digitsValue ds
    some (if negative then -n else n, cs.dropWhile Char.isDigit)

def exponentPart : List Char → Option (Int × List Char)
  | e :: rest =>
    if e = 'e' || e = 'E' then
      match rest with
      | '-' :: more => exponentDigits true more
      | '+' :: more => exponentDigits false more
      | more => exponentDigits false more
    else none
  | [] => none

/-- A number: whole unless it has a fraction or an exponent. -/
def readNumber (negative : Bool) (cs : List Char) : Read Json :=
  match wholePart cs with
  | none => .error .malformed
  | some (ds, rest) =>
    let (fs, rest) := fractionPart rest
    match exponentPart rest with
    | some (e, rest) =>
      .ok (.num (.real (Binary64.ofDecimal negative (digitsValue (ds ++ fs)) (e - fs.length))), rest)
    | none =>
      if !fs.isEmpty then
        .ok (.num (.real (Binary64.ofDecimal negative (digitsValue (ds ++ fs)) (-(fs.length : Int)))), rest)
      else if digitLimit < ds.length then .error (.tooManyDigits ds.length)
      else .ok (.num (.whole (if negative then -(digitsValue ds : Int) else digitsValue ds)), rest)

def word? (w : String) (v : Json) (cs : List Char) : Option (Json × List Char) :=
  if w.toList.isPrefixOf cs then some (v, cs.drop w.length) else none

/-- The words that are values. -/
def readWord (cs : List Char) : Option (Json × List Char) :=
  word? "null" .null cs <|> word? "true" (.bool true) cs <|> word? "false" (.bool false) cs <|>
    word? "NaN" (.num (.real .nan)) cs <|>
    word? "Infinity" (.num (.real (.infinity false))) cs <|>
    word? "-Infinity" (.num (.real (.infinity true))) cs

mutual
/-- One value, with no blanks before it. -/
def readValue : Nat → Nat → List Char → Read Json
  | 0, _, _ => .error .malformed
  | _ + 1, _, [] => .error .malformed
  | fuel + 1, depth, c :: rest =>
    if c = '"' then
      match readString fuel [] rest with
      | .ok (s, rest) => .ok (.str s, rest)
      | .error e => .error e
    else if c = '[' then
      if depthLimit ≤ depth then .error (.tooDeep false)
      else
        match skipSpace rest with
        | ']' :: rest => .ok (.list [], rest)
        | rest => readItems fuel (depth + 1) [] rest
    else if c = '\x7b' then
      if depthLimit ≤ depth then .error (.tooDeep true)
      else
        match skipSpace rest with
        | '\x7d' :: rest => .ok (.obj [], rest)
        | rest => readMembers fuel (depth + 1) [] rest
    else
      match readWord (c :: rest) with
      | some r => .ok r
      | none => if c = '-' then readNumber true rest else readNumber false (c :: rest)

/-- The items of a list from the next one on; `acc` holds the earlier ones, last first. -/
def readItems : Nat → Nat → List Json → List Char → Read Json
  | 0, _, _, _ => .error .malformed
  | fuel + 1, depth, acc, cs =>
    match readValue fuel depth cs with
    | .error e => .error e
    | .ok (v, rest) =>
      match skipSpace rest with
      | ']' :: rest => .ok (.list (v :: acc).reverse, rest)
      | ',' :: rest => readItems fuel depth (v :: acc) (skipSpace rest)
      | _ => .error .malformed

/-- The members of an object from the next key on. -/
def readMembers : Nat → Nat → List (String × Json) → List Char → Read Json
  | 0, _, _, _ => .error .malformed
  | fuel + 1, depth, acc, cs =>
    match cs with
    | '"' :: rest =>
      match readString fuel [] rest with
      | .error e => .error e
      | .ok (key, rest) =>
        match skipSpace rest with
        | ':' :: rest =>
          match readValue fuel depth (skipSpace rest) with
          | .error e => .error e
          | .ok (v, rest) =>
            match skipSpace rest with
            | '\x7d' :: rest => .ok (.obj (insertMember acc key v), rest)
            | ',' :: rest => readMembers fuel depth (insertMember acc key v) (skipSpace rest)
            | _ => .error .malformed
        | _ => .error .malformed
    | _ => .error .malformed
end

/-- Reads a whole text as one value. Each step takes a character, so the length of the text is
enough fuel. -/
def read (s : String) : Except Fault Json :=
  let cs := s.toList
  match readValue (2 * cs.length + 2) 0 (skipSpace cs) with
  | .error e => .error e
  | .ok (v, rest) => if (skipSpace rest).isEmpty then .ok v else .error .malformed

end InkPreview.Json
