import InkPreview.Json.Reader
/-!
JSON text by its standard grammar: a sequence of marks, strings and words with blanks around them. A text stands for a
`Datum`. Strings are kept as UTF-16 units, since an escape may name any of them, numbers as they are written, and
members in their order with every key, so that texts with one datum agree in every detail.
-/
namespace InkPreview.Json

inductive Token
  | mark (c : Char)
  | string (units : List Nat)
  /-- A number or one of the names of values. -/
  | word (written : List Char)
  deriving DecidableEq, Repr

/-- Where a reader of tokens is. -/
inductive Place
  | outside
  | word (written : List Char)
  | string (units : List Nat)
  /-- Behind the backslash of an escape. -/
  | escape (units : List Nat)
  /-- In the hexadecimal digits of an escape, of which some are still to come. -/
  | code (units : List Nat) (missing value : Nat)
  deriving DecidableEq, Repr

/-- The tokens that were read, and what is being read. -/
structure Lexer where
  tokens : List Token
  place : Place
  deriving DecidableEq, Repr

def isMark (c : Char) : Bool := ['[', ']', '\x7b', '\x7d', ':', ','].contains c

def isWordChar (c : Char) : Bool := c.isAlphanum || c == '+' || c == '-' || c == '.'

/-- A character in UTF-16. -/
def units (c : Char) : List Nat :=
  let n := c.toNat
  if n < 0x10000 then [n] else [0xd800 + (n - 0x10000) / 0x400, 0xdc00 + (n - 0x10000) % 0x400]

namespace Lexer

def start : Lexer := ⟨[], .outside⟩

/-- The lexer behind the word that it reads, if any. -/
def endWord (l : Lexer) : Lexer :=
  match l.place with
  | .word w => ⟨l.tokens ++ [.word w], .outside⟩
  | _ => l

/-- One more character between tokens or in a word. -/
def readBetween (l : Lexer) (c : Char) : Option Lexer :=
  if isSpace c then some l.endWord
  else if isMark c then some ⟨l.endWord.tokens ++ [.mark c], .outside⟩
  else if c = '"' then some ⟨l.endWord.tokens, .string []⟩
  else if isWordChar c then
    match l.place with
    | .word w => some ⟨l.tokens, .word (w ++ [c])⟩
    | _ => some ⟨l.tokens, .word [c]⟩
  else none

/-- One more character. -/
def read (l : Lexer) (c : Char) : Option Lexer :=
  match l.place with
  | .outside | .word _ => l.readBetween c
  | .string us =>
    if c = '"' then some ⟨l.tokens ++ [.string us], .outside⟩
    else if c = '\\' then some ⟨l.tokens, .escape us⟩
    else if c.toNat < 0x20 then none
    else some ⟨l.tokens, .string (us ++ units c)⟩
  | .escape us =>
    if c = 'u' then some ⟨l.tokens, .code us 4 0⟩
    else (simpleEscape? c).map fun d => ⟨l.tokens, .string (us ++ units d)⟩
  | .code us missing n =>
    (hexValue? c).map fun d =>
      if missing ≤ 1 then ⟨l.tokens, .string (us ++ [16 * n + d])⟩ else ⟨l.tokens, .code us (missing - 1) (16 * n + d)⟩

def readAll (l : Lexer) (cs : List Char) : Option Lexer := cs.foldlM read l

/-- The tokens of a text that ends here. -/
def finish (l : Lexer) : Option (List Token) :=
  match l.endWord with
  | ⟨ts, .outside⟩ => some ts
  | _ => none

end Lexer

def tokens (cs : List Char) : Option (List Token) := (Lexer.start.readAll cs).bind Lexer.finish

/-- A whole number without leading zeros, with an optional sign, fraction and exponent. -/
def isNumber (written : List Char) : Bool :=
  let unsigned := if written.head? = some '-' then written.drop 1 else written
  match wholePart unsigned with
  | none => false
  | some (_, rest) =>
    let (_, rest) := fractionPart rest
    rest.isEmpty || (exponentPart rest).any (·.2.isEmpty)

/-- What a JSON text stands for. -/
inductive Datum
  | null
  | bool (b : Bool)
  | number (written : List Char)
  | string (units : List Nat)
  | list (items : List Datum)
  | object (members : List (List Nat × Datum))

/-- What is read off a sequence of tokens: a value, or the rest of a list or of an object that is not empty. -/
inductive Piece
  | value (v : Datum)
  | items (vs : List Datum)
  | members (ms : List (List Nat × Datum))

/-- A piece at the start of a sequence of tokens, and what follows it. -/
inductive Reads : Piece → List Token → List Token → Prop
  | null {ts : List Token} : Reads (.value .null) (.word "null".toList :: ts) ts
  | true {ts : List Token} : Reads (.value (.bool true)) (.word "true".toList :: ts) ts
  | false {ts : List Token} : Reads (.value (.bool false)) (.word "false".toList :: ts) ts
  | number {w : List Char} {ts : List Token} (number : isNumber w) : Reads (.value (.number w)) (.word w :: ts) ts
  | string {us : List Nat} {ts : List Token} : Reads (.value (.string us)) (.string us :: ts) ts
  | emptyList {ts : List Token} : Reads (.value (.list [])) (.mark '[' :: .mark ']' :: ts) ts
  | list {vs : List Datum} {ts rest : List Token} (h : Reads (.items vs) ts rest) :
      Reads (.value (.list vs)) (.mark '[' :: ts) rest
  | lastItem {v : Datum} {ts rest : List Token} (h : Reads (.value v) ts (.mark ']' :: rest)) : Reads (.items [v]) ts rest
  | nextItem {v : Datum} {vs : List Datum} {ts mid rest : List Token} (h : Reads (.value v) ts (.mark ',' :: mid))
      (k : Reads (.items vs) mid rest) : Reads (.items (v :: vs)) ts rest
  | emptyObject {ts : List Token} : Reads (.value (.object [])) (.mark '\x7b' :: .mark '\x7d' :: ts) ts
  | object {ms : List (List Nat × Datum)} {ts rest : List Token} (h : Reads (.members ms) ts rest) :
      Reads (.value (.object ms)) (.mark '\x7b' :: ts) rest
  | lastMember {key : List Nat} {v : Datum} {ts rest : List Token} (h : Reads (.value v) ts (.mark '\x7d' :: rest)) :
      Reads (.members [(key, v)]) (.string key :: .mark ':' :: ts) rest
  | nextMember {key : List Nat} {v : Datum} {ms : List (List Nat × Datum)} {ts mid rest : List Token}
      (h : Reads (.value v) ts (.mark ',' :: mid)) (k : Reads (.members ms) mid rest) :
      Reads (.members ((key, v) :: ms)) (.string key :: .mark ':' :: ts) rest

/-- The text is valid JSON and stands for the datum. -/
def StandsFor (cs : List Char) (v : Datum) : Prop := ∃ ts, tokens cs = some ts ∧ Reads (.value v) ts []

end InkPreview.Json
