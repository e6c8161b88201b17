import InkPreview.Decimal.Number
import InkPreview.Text.Quoted
/-!
JSON values. Members keep the order in which their keys first appear.
-/
namespace InkPreview

open Decimal (Number)

inductive Json
  | null
  | bool (b : Bool)
  | num (n : Number)
  | str (s : String)
  | list (items : List Json)
  | obj (members : List (String × Json))
  deriving Repr, Inhabited

namespace Json

def whole (n : Int) : Json := .num (.whole n)

/-- Puts a member last, or replaces the value of a key that is already there. -/
def insertMember (members : List (String × Json)) (key : String) (value : Json) :
    List (String × Json) :=
  if members.any (·.1 == key) then members.map fun m => if m.1 == key then (key, value) else m
  else members ++ [(key, value)]

def get? : Json → String → Option Json
  | obj members, key => members.lookup key
  | _, _ => none

mutual
/-- The value as it stands inside a list or object in a message. -/
def inner : Json → String
  | null => "None"
  | bool b => if b then "True" else "False"
  | num n => n.text
  | str s => Text.quote s
  | list items => "[" ++ innerItems items ++ "]"
  | obj members => "\x7b" ++ innerMembers members ++ "\x7d"

def innerItems : List Json → String
  | [] => ""
  | [v] => v.inner
  | v :: rest => v.inner ++ ", " ++ innerItems rest

def innerMembers : List (String × Json) → String
  | [] => ""
  | [(k, v)] => Text.quote k ++ ": " ++ v.inner
  | (k, v) :: rest => Text.quote k ++ ": " ++ v.inner ++ ", " ++ innerMembers rest
end

/-- The value as it stands in a message: text as it is, everything else as inside a list. -/
def text : Json → String
  | str s => s
  | v => v.inner

/-- Whether the value counts as given: not null, false, zero or empty. -/
def isGiven : Json → Bool
  | null => false
  | bool b => b
  | num n => !n.isZero
  | str s => s != ""
  | list items => !items.isEmpty
  | obj members => !members.isEmpty

end Json
end InkPreview
