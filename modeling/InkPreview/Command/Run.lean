import InkPreview.Command.Arguments
import InkPreview.Compile.Search
import InkPreview.Console
import InkPreview.Export.Save
import InkPreview.Live.Run
import InkPreview.Page.StoryRuntime
import InkPreview.Settings.Environment
/-!
The export command: reads a source, compiles it unless it is exported as it is, and saves the
result. Everything it prints, logs and writes is in its report.
-/
namespace InkPreview.Command

open Files (Path Tree)
open Live (World Event Finder Setup)

/-- What a run of the command finds: files, a compiler, a terminal and settings. -/
structure Machine where
  disk : Export.Disk
  /-- How the compiler behaves on a source. -/
  child : String → Child
  terminal : Console.Terminal
  configuration : Settings.Configuration

inductive Ending
  | status (n : Nat)
  | stopped (s : Stop)
  | fault (f : Fault)
  deriving DecidableEq, Repr

structure Report where
  printed : List Shown
  logged : List Note
  /-- The processes that were started, with their sources. -/
  spawned : List (String × String)
  tree : Tree
  ending : Ending

/-- How a run finishes, with what is printed for it. -/
structure Finish where
  printed : List Shown
  tree : Tree
  ending : Ending

namespace Machine

def failurePanel (m : Machine) (title message : String) : Shown :=
  .panel title "center" "red" (m.terminal.visible message)

def fault (m : Machine) (f : Fault) : Finish := ⟨[], m.disk.tree, .fault f⟩

/-- Shows one thing more and finishes, unless the terminal is not able to show it. -/
def showLast (m : Machine) (printed : List Shown) (shown : Shown) (tree : Tree) (status : Nat) : Finish :=
  match m.terminal.refusal shown with
  | none => ⟨printed ++ [shown], tree, .status status⟩
  | some f => ⟨printed, tree, .fault f⟩

/-- The end of a run that shows something and fails. -/
def failed (m : Machine) (shown : Shown) : Finish := m.showLast [] shown m.disk.tree 1

/-- The line that names the file that has been written. -/
def saved (target : Path) : Shown := .markup ("[green]Wrote[/green] " ++ target.text)

/-- Saves an export under the place that was asked for. -/
def saveUnder (m : Machine) (output : String) (e : Exported) (printed : List Shown) : Finish :=
  match Export.save m.disk e.content e.filename output with
  | (tree, .ok target) => m.showLast printed (saved target) tree 0
  | (tree, .error .nullByte) => ⟨printed, tree, .fault (.file .nullByte)⟩
  | (tree, .error f) => m.showLast printed (m.failurePanel "Cannot write output" f.message) tree 1

/-- Saves an export, for which there has to be a place. -/
def save (m : Machine) (a : Arguments) (e : Exported) (printed : List Shown) : Finish :=
  match a.output with
  | .value output => m.saveUnder output e printed
  | .nothing => ⟨printed, m.disk.tree, .fault .outputNotGiven⟩

/-- A compiled story is shown before it is saved, if that was asked for. -/
def conclude (m : Machine) (a : Arguments) (e : Exported) : Finish :=
  if a.preview && e.kind = .compiled then
    match Console.show? m.terminal (.compiled e.content) a.source.name with
    | .ok shown =>
      match m.terminal.refusal shown with
      | none => m.save a e [shown]
      | some f => m.fault f
    | .error f => m.fault (.json f)
  else m.save a e []

/-- What an export came to. -/
def settle (m : Machine) (a : Arguments) : Option Live.Result → Finish
  | some (.value (.exported e)) => m.conclude a e
  | some (.fault (.exportFailed _ message)) =>
    match Console.show? m.terminal (.compilerError message) "" with
    | .ok shown => m.failed shown
    | .error f => m.fault (.json f)
  | some (.fault f) => m.fault f
  | _ => ⟨[], m.disk.tree, .status 1⟩

/-- The given compiler comes before the places where one may be installed. -/
def search (m : Machine) (a : Arguments) : Search :=
  let preferred := match a.compiler with
    | none | some .nothing | some (.value "") => m.configuration.compiler
    | some (.value c) => c
  .new preferred Settings.searchPaths

def finder (m : Machine) (a : Arguments) : Finder :=
  let located := (m.search a).locate m.disk.tree
  ⟨located.answer.mapError .file, located.notes⟩

def setup (m : Machine) : Setup := ⟨Settings.quietMicros, .real m.configuration.limit, false, m.child⟩

/-- Steps enough for one export, which has no loop in it. -/
def exportFuel : Nat := 1000

def notesOf (w : World) : List Note :=
  w.history.reverse.filterMap fun e => match e with
    | .note n => some n
    | _ => none

def spawnedBy (w : World) : List (String × String) :=
  w.history.reverse.filterMap fun e => match e with
    | .spawned _ _ executable source => some (executable, source)
    | _ => none

def report (threshold : Nat) (o : Finish) (w : Option World) : Report where
  printed := o.printed
  logged := ((w.map notesOf).getD []).filter fun n => threshold ≤ n.level.weight
  spawned := (w.map spawnedBy).getD []
  tree := o.tree
  ending := o.ending

/-- Exports a source that has been read, as the kind that was asked for. -/
def exportText (m : Machine) (threshold : Nat) (a : Arguments) (source : String) : Report :=
  match Page.LocalRuntime.find m.disk.tree m.configuration.runtime with
  | .error f => report threshold (m.fault (.file f)) none
  | .ok runtime =>
    let (tag, notes) := Page.runtimeTag runtime none
    let w := (World.start m.setup (m.finder a) (Gallery.new tag) []).noteAll notes
    let title := a.source.stem
    match a.kind with
    | .nothing => report threshold (m.fault .kindNotGiven) (some w)
    | .value kind =>
      let (r, w) := w.finishOp exportFuel (.exportAs title source kind (some title))
      report threshold (m.settle a r) (some w)

/-- A source that cannot be read is shown as a failure. -/
def carryOut (m : Machine) (a : Arguments) (threshold : Nat) : Report :=
  match m.disk.tree.readText a.source.text with
  | .ok source => m.exportText threshold a source
  | .error (.file .nullByte) => report threshold (m.fault (.file .nullByte)) none
  | .error f => report threshold (m.failed (m.failurePanel "Cannot read source" f.message)) none

/-- The name of the level of logging; an empty name stands for none. -/
def levelName (m : Machine) (a : Arguments) : String :=
  match a.logLevel with
  | none | some .nothing | some (.value "") => m.configuration.logLevel
  | some (.value l) => l

/-- A whole run of the command. -/
def run (m : Machine) (args : List String) : Report :=
  match Arguments.parse args with
  | .error s => report 0 ⟨[], m.disk.tree, .stopped s⟩ none
  | .ok a =>
    match Level.threshold (m.levelName a) with
    | .error f => report 0 (m.fault f) none
    | .ok threshold => m.carryOut a threshold

end Machine
end InkPreview.Command
