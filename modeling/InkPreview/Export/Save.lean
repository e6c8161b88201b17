import InkPreview.Export.Kind
import InkPreview.Files.Tree
/-!
Saving an export. The content goes to a new file beside the target, which then takes the target's
place in one step; whatever fails before that leaves the target as it was.
-/
namespace InkPreview.Export

open Files (Path Tree Place)

/-- The steps of a save that the system may refuse. -/
inductive Stage
  | directory
  | create
  | write
  | replace
  deriving DecidableEq, Repr

/-- The files, and the reasons for which steps of a save fail beyond what the files are. -/
structure Disk where
  tree : Tree
  refuses : Stage → Option String

/-- A disk on which every step does what the files allow. -/
def Disk.sound (t : Tree) : Disk := ⟨t, fun _ => none⟩

def Disk.check (d : Disk) (s : Stage) : Except FileFault Unit :=
  match d.refuses s with
  | some reason => .error (.told reason)
  | none => .ok ()

/-- The end of a new file's name stands for eight random characters. -/
def scratchName (target : String) : String := "." ++ target ++ ".XXXXXXXX"

def isSlashed (destination : String) : Bool := destination.endsWith "/"

/-- Makes the directory that a destination with a last slash asks for. -/
def prepare (d : Disk) (destination : String) : Tree × Except FileFault Unit :=
  let p := Path.ofText destination
  if isSlashed destination then
    match d.check .directory with
    | .error e => (d.tree, .error e)
    | .ok () => d.tree.makeDirectories (p.names.length + 2) p
  else (d.tree, .ok ())

/-- In a directory the export gets its own name. -/
def targetOf (t : Tree) (destination filename : String) : Except FileFault Path :=
  let p := Path.ofText destination
  match t.isDirectory p.text with
  | .error e => .error e
  | .ok true => .ok (p.join filename)
  | .ok false => .ok p

/-- Fills the new file, then moves it to the target. -/
def fillAndMove (d : Disk) (t : Tree) (place : Place) (shown : String) (target : Path)
    (content : List UInt8) : Except FileFault Tree := do
  d.check .write
  let t := t.put place (.file content 0o600)
  d.check .replace
  t.moveFile place shown target.text

/-- Writes the content beside the target and moves it there. The new file goes when that fails. -/
def write (d : Disk) (t : Tree) (target : Path) (content : List UInt8) :
    Tree × Except FileFault Path :=
  let (names, shown) := t.absolute target.parent
  let scratch := scratchName target.name
  let shown := if shown.endsWith "/" then shown ++ scratch else shown ++ "/" ++ scratch
  match d.check .create, t.createFile (names ++ [scratch]) shown [] 0o600 with
  | .error e, _ | _, .error e => (t, .error e)
  | .ok (), .ok (place, filled) =>
    match fillAndMove d filled place shown target content with
    | .ok t => (t, .ok target)
    | .error e => (filled.remove place, .error e)

/-- Saves content under a destination. The tree that is handed back is the one after a failure too. -/
def save (d : Disk) (content filename destination : String) : Tree × Except FileFault Path :=
  match prepare d destination with
  | (t, .error e) => (t, .error e)
  | (t, .ok ()) =>
    match targetOf t destination filename with
    | .error e => (t, .error e)
    | .ok target => write d t target (Text.Utf8.encode content.toList)

end InkPreview.Export
