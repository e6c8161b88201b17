import InkPreview.Files.Tree
import InkPreview.Journal
import InkPreview.Settings.Constants
/-!
The search for the compiler. The first candidate that can be executed is taken and remembered; that
none was found is not remembered, so a compiler installed later is found.
-/
namespace InkPreview

open Files (Path Tree)

structure Search where
  /-- The compiler that is tried first. -/
  preferred : String
  places : List String
  remembered : Option String
  deriving DecidableEq, Repr

namespace Search

def new (preferred : String) (places : List String) : Search := ⟨preferred, places, none⟩

def candidates (s : Search) : List String := s.preferred :: s.places

/-- An empty candidate stands for none. -/
def isUsable (t : Tree) (candidate : String) : Except FileFault Bool :=
  if candidate = "" then .ok false else t.isExecutable (Path.ofText candidate).text

/-- The first usable candidate, unless asking about an earlier one fails. -/
def firstUsable (t : Tree) : List String → Except FileFault (Option String)
  | [] => .ok none
  | c :: rest =>
    match isUsable t c with
    | .error e => .error e
    | .ok true => .ok (some c)
    | .ok false => firstUsable t rest

/-- What a search comes to, and what is noted on the way. -/
structure Located where
  answer : Except FileFault (Option String)
  notes : List Note
  search : Search

def locate (s : Search) (t : Tree) : Located :=
  match s.remembered with
  | some path => ⟨.ok (some path), [], s⟩
  | none =>
    match firstUsable t s.candidates with
    | .error e => ⟨.error e, [], s⟩
    | .ok (some path) => ⟨.ok (some path), [.usingCompiler path], { s with remembered := some path }⟩
    | .ok none => ⟨.ok none, [.noCompiler s.candidates], s⟩

def forget (s : Search) : Search := { s with remembered := none }

end Search
end InkPreview
