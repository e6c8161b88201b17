import InkPreview.Command.Run
/-!
The export command as a program. The files that its arguments name are read before the command and
written after it. No process is started from here: a compile answers that it was refused.
-/
namespace InkPreview.Command.Program

open Files (Path Tree)

/-- A compiler that is never started. -/
def refusedChild (_ : String) : Child where
  writeFault := none
  startFault := some (.refused "The compiler cannot be started from this program.")
  runTime := 0
  exitCode := 0
  printed := []
  output := .missing
  gone := false
  reapTime := none

/-- Everything is shown as it is. -/
def plainTerminal : Console.Terminal := ⟨id, fun _ => none⟩

/-- What the program looks at: the source, the compiler, the output and what the output is in. -/
def placesOf (c : Settings.Configuration) (args : List String) : List String :=
  match Arguments.parse args with
  | .error _ => []
  | .ok a =>
    let output := Path.ofText a.output.text
    [a.source.text, (a.compiler.map Given.text).getD "", c.compiler, c.runtime, output.parent.text, output.text] ++
      Settings.searchPaths

/-- Takes a file or directory into the tree. -/
def load (t : Tree) (path : String) : IO Tree := do
  match ← (IO.FS.readBinFile path).toBaseIO with
  | .ok bytes => pure (t.writeFile path bytes.toList 0o755).1
  | .error (.inappropriateType ..) =>
    pure (t.makeDirectories (path.length + 1) (Path.ofText path)).1
  | .error _ => pure t

/-- Writes what the command has changed. -/
def store (before after : Tree) : IO Unit :=
  for (path, content) in after.listing do
    unless before.listing.contains (path, content) do
      match content with
      | none => IO.FS.createDirAll path
      | some bytes => IO.FS.writeBinFile path ⟨bytes.toArray⟩

def linesOf : Shown → List String
  | .text plain _ => [plain]
  | .panel title _ _ body => [title, body]
  | .markup text => [text]

/-- What is printed for the end of a run, and the status that is handed back. -/
def endingOf : Ending → List String × UInt32
  | .status n => ([], n.toUInt32)
  | .stopped .help => (["usage: inkies-export [options] source"], 0)
  | .stopped (.refused f) => ([f.message], 2)
  | .fault f => ([f.message], 1)

def settingNames : List String :=
  ["INKIES_INKLECATE", "INKIES_INKJS_PATH", "INKIES_HOST", "INKIES_LOG_LEVEL",
    "INKIES_COMPILE_TIMEOUT", "INKIES_PORT"]

def environment : IO (List (String × String)) :=
  settingNames.filterMapM fun name => do pure ((← IO.getEnv name).map (name, ·))

def exportWith (c : Settings.Configuration) (args : List String) : IO UInt32 := do
  let tree ← (placesOf c args).foldlM load (Tree.new ["here"] ".")
  let report := Machine.run ⟨.sound tree, refusedChild, plainTerminal, c⟩ args
  store tree report.tree
  let (lines, status) := endingOf report.ending
  let logged := report.logged.map Note.line
  for line in logged ++ report.printed.flatMap linesOf ++ lines do
    IO.eprintln line
  pure status

end InkPreview.Command.Program

open InkPreview in
def main (args : List String) : IO UInt32 := do
  match Settings.Configuration.ofEnvironment "." (← Command.Program.environment) with
  | .ok c => Command.Program.exportWith c args
  | .error f =>
    IO.eprintln f.message
    pure 1
