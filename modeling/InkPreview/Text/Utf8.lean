/-!
Bytes and text. `encode` is the one way to write text, `decode` accepts exactly well-formed bytes
and says where and why it stops, and `decodeLossy` puts a replacement character for every longest
piece that cannot be completed.
-/
namespace InkPreview.Text.Utf8

inductive Reason
  | badStart
  | badContinuation
  | endOfData
  deriving DecidableEq, Repr

def Reason.message : Reason → String
  | .badStart => "invalid start byte"
  | .badContinuation => "invalid continuation byte"
  | .endOfData => "unexpected end of data"

/-- The first ill-formed piece: where it starts, its first byte and how many bytes it spans. -/
structure Fault where
  position : Nat
  first : UInt8
  size : Nat
  reason : Reason
  deriving DecidableEq, Repr

/-- What stands at the front of a byte sequence: a character or an ill-formed piece, with the
number of bytes it takes beyond the first. -/
inductive Piece
  | char (c : Char) (more : Nat)
  | bad (r : Reason) (more : Nat)
  deriving DecidableEq, Repr

/-- Reads continuation bytes. Only the first of them may have a narrower range than `80`–`bf`. -/
def tail (acc seen : Nat) : Nat → Nat → Nat → List UInt8 → Piece
  | 0, _, _, _ => .char (Char.ofNat acc) seen
  | _ + 1, _, _, [] => .bad .endOfData seen
  | n + 1, lo, hi, b :: rest =>
    if lo ≤ b.toNat && b.toNat ≤ hi then
      tail (acc * 64 + (b.toNat - 0x80)) (seen + 1) n 0x80 0xbf rest
    else .bad .badContinuation seen

/-- The narrower ranges keep out overlong forms, surrogates and code points past the last. -/
def piece (b : UInt8) (rest : List UInt8) : Piece :=
  let n := b.toNat
  if n < 0x80 then .char (Char.ofNat n) 0
  else if n < 0xc2 then .bad .badStart 0
  else if n < 0xe0 then tail (n - 0xc0) 0 1 0x80 0xbf rest
  else if n = 0xe0 then tail 0 0 2 0xa0 0xbf rest
  else if n = 0xed then tail 0xd 0 2 0x80 0x9f rest
  else if n < 0xf0 then tail (n - 0xe0) 0 2 0x80 0xbf rest
  else if n = 0xf0 then tail 0 0 3 0x90 0xbf rest
  else if n < 0xf4 then tail (n - 0xf0) 0 3 0x80 0xbf rest
  else if n = 0xf4 then tail 4 0 3 0x80 0x8f rest
  else .bad .badStart 0

def encode (cs : List Char) : List UInt8 := cs.flatMap String.utf8EncodeChar

/-- Decodes from the byte at `position` on. -/
def decodeFrom (position : Nat) : List UInt8 → Except Fault (List Char)
  | [] => .ok []
  | b :: rest =>
    match piece b rest with
    | .char c more =>
      match decodeFrom (position + 1 + more) (rest.drop more) with
      | .ok cs => .ok (c :: cs)
      | .error e => .error e
    | .bad reason more => .error ⟨position, b, more + 1, reason⟩
  termination_by bs => bs.length
  decreasing_by simp only [List.length_drop, List.length_cons]; omega

def decode (bs : List UInt8) : Except Fault (List Char) := decodeFrom 0 bs

def decodeLossy : List UInt8 → List Char
  | [] => []
  | b :: rest =>
    match piece b rest with
    | .char c more => c :: decodeLossy (rest.drop more)
    | .bad _ more => Char.ofNat 0xfffd :: decodeLossy (rest.drop more)
  termination_by bs => bs.length
  decreasing_by all_goals simp only [List.length_drop, List.length_cons]; omega

/-- The mark that some programs put before their output. -/
def mark : List UInt8 := [0xef, 0xbb, 0xbf]

/-- Decodes after dropping one leading mark. Bytes that only begin the mark hold no text. -/
def decodeMarked (bs : List UInt8) : Except Fault (List Char) :=
  if bs.length < 3 && bs.isPrefixOf mark then .ok []
  else if mark.isPrefixOf bs then decode (bs.drop 3)
  else decode bs

def hexDigits (n : Nat) (b : Nat) : List Char :=
  let digit (k : Nat) : Char := (Nat.digitChar (b / Nat.pow 16 k % 16))
  (List.range n).reverse.map digit

def Fault.message (e : Fault) : String :=
  let what :=
    if e.size = 1 then s!"byte 0x{String.ofList (hexDigits 2 e.first.toNat)} in position {e.position}"
    else s!"bytes in position {e.position}-{e.position + e.size - 1}"
  "'utf-8' codec can't decode " ++ what ++ ": " ++ e.reason.message

end InkPreview.Text.Utf8
