import InkPreview.Live.Run
import InkPreview.Page.StoryRuntime
/-!
Starting the editor. Only one set of components is registered at a time.
-/
namespace InkPreview.Live

/-- Which components are registered: none, the ones of this run, or ones made later. -/
inductive Registered
  | nothing
  | these
  | others
  deriving DecidableEq, Repr

/-- A second start is refused until the first has been forgotten. -/
def Registered.startAgain : Registered → Except Fault Registered
  | nothing => .ok others
  | _ => .error .alreadyStarted

namespace World

/-- The search for a compiler at the start only warns. -/
def noteStartup (w : World) (runtime : List Note) (f : Finder) : World :=
  let w := (w.noteAll runtime).noteAll f.notes
  let w := match f.answer with
    | .ok none => w.note .compilerAbsent
    | _ => w
  w.note .componentsCreated

/-- An editor that has just been started. -/
def startUp (setup : Setup) (finder : Finder) (runtime : String × List Note)
    (subscribers : List Subscriber) : World :=
  (start setup finder (Gallery.new runtime.1) subscribers).noteStartup runtime.2 finder

/-- Starts the editor, which fails if the search for a compiler does. -/
def boot (setup : Setup) (finder : Finder) (runtime : String × List Note) (subscribers : List Subscriber) :
    Except Fault World :=
  match finder.answer with
  | .error f => .error f
  | .ok _ => .ok (startUp setup finder runtime subscribers)

end World
end InkPreview.Live
