import InkPreview.Calendar
import InkPreview.Json.Value
/-!
Documents kept in memory, newest edit first when listed. A document is named by text; the stores
also take a number or a truth value for a name, and take two of those for one name when they are
equal as numbers.
-/
namespace InkPreview

open Decimal (Number)

inductive DocId
  | name (s : String)
  | number (n : Number)
  | truth (b : Bool)
  deriving DecidableEq, Repr, Inhabited

namespace DocId

/-- The name under which the stores file a document. -/
def key : DocId → DocId
  | name s => name s
  | number n => number n.simplify
  | truth b => number (.whole (if b then 1 else 0))

def same (a b : DocId) : Bool := a.key = b.key

/-- A name that is not given: the empty text, zero or false. -/
def isGiven : DocId → Bool
  | name s => s != ""
  | number n => !n.isZero
  | truth b => b

def toJson : DocId → Json
  | name s => .str s
  | number n => .num n
  | truth b => .bool b

/-- Lists and objects name nothing; the word for what was given instead is handed back. -/
def ofJson : Json → Except String DocId
  | .str s => .ok (.name s)
  | .num n => .ok (.number n)
  | .bool b => .ok (.truth b)
  | .null => .error "NoneType"
  | .list _ => .error "list"
  | .obj _ => .error "dict"

/-- Whether JSON has a form for the name; it has none for infinities and for not-a-number. -/
def isWritable : DocId → Bool
  | number (.real x) => x.isFinite
  | _ => true

/-- The word for the type of a name that is not text. -/
def typeName : DocId → String
  | name _ => "str"
  | number (.whole _) => "int"
  | number (.real _) => "float"
  | truth _ => "bool"

@[simp] theorem same_name (a b : String) : same (.name a) (.name b) = decide (a = b) := by
  simp [same, key]

end DocId

structure Document where
  id : DocId
  title : String
  content : String
  /-- Millionths of a second since the start of the calendar in use. -/
  updatedAt : Int
  deriving DecidableEq, Repr, Inhabited

/-- The entry of a document in a list of documents. -/
def Document.toJson (d : Document) : Json :=
  .obj [("document_id", d.id.toJson), ("title", .str d.title),
    ("updated_at", .str (Calendar.stamp d.updatedAt))]

/-- The documents in order of creation, the time, and the number for the next new name. -/
structure Library where
  documents : List Document
  now : Int
  nextName : Nat
  deriving DecidableEq, Repr, Inhabited

namespace Library

def untitled : String := "Untitled"

def new : Library := ⟨[], 0, 1⟩

/-- A new name: a number in 32 hexadecimal digits. -/
def newName (n : Nat) : String := String.ofList (Text.Utf8.hexDigits 32 n)

def find? (l : Library) (id : DocId) : Option Document := l.documents.find? (·.id.same id)

def contains (l : Library) (id : DocId) : Bool := (l.find? id).isSome

def content? (l : Library) (id : DocId) : Option String := (l.find? id).map (·.content)

/-- Puts a document last, or in the place of the one with its name. -/
def put (d : Document) : List Document → List Document
  | [] => [d]
  | e :: rest => if e.id.same d.id then d :: rest else e :: put d rest

/-- Creates a document. Without a title it is untitled, and without a name it gets a new one. -/
def create (l : Library) (title : Option String) (content : String) (id : Option DocId) :
    Document × Library :=
  let title := match title with
    | none | some "" => untitled
    | some t => t
  let (id, next) := match id with
    | some id => if id.isGiven then (id, l.nextName) else (.name (newName l.nextName), l.nextName + 1)
    | none => (.name (newName l.nextName), l.nextName + 1)
  let d : Document := ⟨id, title, content, l.now⟩
  (d, { l with documents := put d l.documents, nextName := next })

/-- Replaces the content of a document, creating the document if needed. -/
def setContent (l : Library) (id : DocId) (content : String) : Document × Library :=
  match l.find? id with
  | some d =>
    let d := { d with content, updatedAt := l.now }
    (d, { l with documents := put d l.documents })
  | none => l.create none content (some id)

/-- Inserts before the first document that is older. -/
def insertNewest (d : Document) : List Document → List Document
  | [] => [d]
  | e :: rest => if e.updatedAt ≤ d.updatedAt then d :: e :: rest else e :: insertNewest d rest

/-- Newest edit first; documents of one age stay in order of creation. -/
def newestFirst (l : Library) : List Document := l.documents.foldr insertNewest []

end Library
end InkPreview
