import InkPreview.Json.Value
/-!
Writing JSON text: no blanks, and every character outside printable ASCII as an escape.
-/
namespace InkPreview.Json

def unitEscape (n : Nat) : List Char := '\\' :: 'u' :: Text.Utf8.hexDigits 4 n

/-- A character past the basic plane is written as two units. -/
def writeChar (c : Char) : List Char :=
  let n := c.toNat
  if c = '"' then ['\\', '"']
  else if c = '\\' then ['\\', '\\']
  else if 0x20 ≤ n && n < 0x7f then [c]
  else if n < 0x10000 then unitEscape n
  else unitEscape (0xd800 + (n - 0x10000) / 0x400) ++ unitEscape (0xdc00 + (n - 0x10000) % 0x400)

def writeString (s : String) : String :=
  s.foldl (fun acc c => (writeChar c).foldl String.push acc) "\"" ++ "\""

def writeNumber : Decimal.Number → String
  | .whole n => toString n
  | .real x =>
    if x.isNaN then "NaN"
    else if x.isInfinite then (if x.isNegative then "-Infinity" else "Infinity")
    else x.plain

mutual
def write : Json → String
  | null => "null"
  | bool b => if b then "true" else "false"
  | num n => writeNumber n
  | str s => writeString s
  | list items => "[" ++ writeItems items ++ "]"
  | obj members => "\x7b" ++ writeMembers members ++ "\x7d"

def writeItems : List Json → String
  | [] => ""
  | [v] => v.write
  | v :: rest => v.write ++ "," ++ writeItems rest

def writeMembers : List (String × Json) → String
  | [] => ""
  | [(k, v)] => writeString k ++ ":" ++ v.write
  | (k, v) :: rest => writeString k ++ ":" ++ v.write ++ "," ++ writeMembers rest
end

end InkPreview.Json
