/-!
Paths as text and as a list of names. Repeated slashes, single dots and a last slash do not matter;
double dots stay.
-/
namespace InkPreview.Files

/-- `root` is empty for a path that starts at the current directory, else its leading slashes. -/
structure Path where
  root : String
  names : List String
  deriving DecidableEq, Repr, Inhabited

namespace Path

/-- Two leading slashes are a root of their own; any other number is one. -/
def rootOf (cs : List Char) : String :=
  match (cs.takeWhile (· = '/')).length with
  | 0 => ""
  | 2 => "//"
  | _ => "/"

/-- What stands between the slashes of a text. -/
def namesOf (s : String) : List String := (s.toList.splitOn '/').map String.ofList

def ofText (s : String) : Path :=
  ⟨rootOf s.toList, (namesOf s).filter fun n => n != "" && n != "."⟩

def text (p : Path) : String :=
  if p.root = "" && p.names.isEmpty then "." else p.root ++ "/".intercalate p.names

def name (p : Path) : String := p.names.getLastD ""

/-- The path without its last name. -/
def parent (p : Path) : Path := { p with names := p.names.dropLast }

/-- A path below this one. An absolute path takes its place. -/
def join (p : Path) (below : String) : Path :=
  let q := ofText below
  if q.root = "" then { p with names := p.names ++ q.names } else q

/-- The name up to its last dot, unless the dot is its first or last character. -/
def stemChars (cs : List Char) : List Char :=
  let after := cs.reverse.takeWhile (· ≠ '.')
  let before := cs.take (cs.length - after.length - 1)
  if after.isEmpty || after.length = cs.length || before.isEmpty then cs else before

def stem (p : Path) : String := String.ofList (stemChars p.name.toList)

/-- Takes double dots together with the name before them, without looking at any file. -/
def collapse (above names : List String) : List String :=
  names.foldl (fun acc n => if n = ".." then acc.dropLast else acc ++ [n]) above

end Path
end InkPreview.Files
