import InkPreview.Journal
import InkPreview.Settings.Environment
import InkPreview.Text.Case
/-!
Where the editor listens, and what it says when it starts.
-/
namespace InkPreview.Web

structure Address where
  host : String
  socket : Int
  logLevel : String
  deriving DecidableEq, Repr

namespace Address

/-- A host that is empty and a socket that is zero count as not given. -/
def choose (c : Settings.Configuration) (host : Option String) (socket : Option Int) : Address where
  host := match host with
    | none | some "" => c.host
    | some h => h
  socket := match socket with
    | none | some 0 => c.socket
    | some p => p
  logLevel := Text.lower c.logLevel

def greeting (a : Address) : String :=
  "inkies editor starting at http://" ++ a.host ++ ":" ++ toString a.socket ++ "\n"

/-- What is said after the editor was interrupted. -/
def farewell : String := "\nServer stopped\n"

/-- Starting the editor as a program: the level of logging has to be one there is. -/
def ofConfiguration (c : Settings.Configuration) : Except Fault Address :=
  (Level.threshold c.logLevel).map fun _ => choose c none none

end Address
end InkPreview.Web
