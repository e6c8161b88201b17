import InkPreview.Compile.Child
import InkPreview.Export.Kind
import InkPreview.Fault
import InkPreview.LogText
import InkPreview.Mode
import InkPreview.Text.Case
/-!
The journal: everything the program notes while it runs, with the level, the part of the program
and the wording of each note.
-/
namespace InkPreview

open Decimal (Number)

inductive Level
  | debug
  | info
  | warning
  | error
  deriving DecidableEq, Repr

def Level.name : Level → String
  | debug => "DEBUG"
  | info => "INFO"
  | warning => "WARNING"
  | error => "ERROR"

def Level.weight : Level → Nat
  | debug => 10
  | info => 20
  | warning => 30
  | error => 40

/-- The names a level of logging can be given by, each with the lightest note that is logged. -/
def Level.thresholds : List (String × Nat) :=
  [("CRITICAL", 50), ("FATAL", 50), ("ERROR", 40), ("WARNING", 30), ("WARN", 30), ("INFO", 20),
    ("DEBUG", 10), ("NOTSET", 0)]

/-- The weight from which notes are logged. Names are taken in any case. -/
def Level.threshold (name : String) : Except Fault Nat :=
  let name := Text.upper name
  match Level.thresholds.lookup name with
  | some weight => .ok weight
  | none => .error (.unknownLevel name)

/-- The parts of the program that keep notes. -/
inductive Part
  | previews
  | compiler
  | search
  | pages
  | exports
  | messages
  | clients
  | startup
  deriving DecidableEq, Repr

def Part.name : Part → String
  | previews => "inkies.coordinator"
  | compiler => "inkies.compiler.invoker"
  | search => "inkies.compiler.locator"
  | pages => "inkies.render.renderer"
  | exports => "inkies.export"
  | messages => "inkies.web.handlers"
  | clients => "inkies.web.server"
  | startup => "inkies.runtime.bootstrap"

inductive Note
  | fastPath (doc : String) (generation : Nat) (kind : Kind)
  | scheduled (doc : String) (generation : Nat) (text : String)
  | abandoned (doc : String) (generation : Nat)
  | superseded (doc : String) (generation : Nat)
  | crashed (doc : String) (message : String)
  | dropped (doc : String) (generation latest : Nat)
  | failed (doc : String) (generation : Nat) (failure : Failure)
  | closed (doc : String) (tasks : Nat)
  | previewsStopped
  | subscriberFailed (message : String)
  | startRefused (executable message : String)
  | timedOut (limit : Number)
  | compileCancelled
  | compilerExited (code : Int)
  | outputUnreadable (reason : String)
  | outputBlank
  | usingCompiler (path : String)
  | noCompiler (candidates : List String)
  | pageBuilt (doc : String) (kind : Kind) (size : Nat)
  | runtimeUnreadable (path reason : String)
  | runtimeFromUrl (url : String)
  | exportFailed (doc : String) (kind : ExportKind) (failure : Failure)
  | exported (doc : String) (kind : ExportKind) (size : Nat)
  | messageRefused (reason : String)
  | clientDropped (reason : String)
  | compilerAbsent
  | componentsCreated
  | componentsStopped
  deriving DecidableEq, Repr

namespace Note

def part : Note → Part
  | fastPath .. | scheduled .. | abandoned .. | superseded .. | crashed .. | dropped .. | failed ..
  | closed .. | previewsStopped | subscriberFailed .. => .previews
  | startRefused .. | timedOut .. | compileCancelled | compilerExited .. | outputUnreadable ..
  | outputBlank => .compiler
  | usingCompiler .. | noCompiler .. => .search
  | pageBuilt .. | runtimeUnreadable .. | runtimeFromUrl .. => .pages
  | exportFailed .. | exported .. => .exports
  | messageRefused .. => .messages
  | clientDropped .. => .clients
  | compilerAbsent | componentsCreated | componentsStopped => .startup

def level : Note → Level
  | crashed .. | subscriberFailed .. => .error
  | startRefused .. | timedOut .. | outputUnreadable .. | outputBlank | runtimeUnreadable ..
  | compilerAbsent => .warning
  | failed .. | previewsStopped | compilerExited .. | usingCompiler .. | exportFailed ..
  | exported .. | componentsCreated | componentsStopped => .info
  | _ => .debug

def quotedList (items : List String) : String :=
  "[" ++ ", ".intercalate (items.map Text.quote) ++ "]"

def message : Note → String
  | fastPath d g k => LogText.aboutDoc "Coordinator" d s!"g{g} fast path: {k.name}"
  | scheduled d g t => LogText.aboutDoc "Coordinator" d s!"g{g} scheduled: {LogText.excerpt t none}"
  | abandoned d g => LogText.aboutDoc "Coordinator" d s!"g{g} abandoned"
  | superseded d g => LogText.aboutDoc "Coordinator" d s!"g{g} superseded before spawn"
  | crashed d m => LogText.aboutDoc "Coordinator" d s!"compile crashed: {m}"
  | dropped d g l => LogText.aboutDoc "Coordinator" d s!"g{g} result dropped (latest g{l})"
  | failed d g f => LogText.aboutDoc "Coordinator" d s!"g{g} {f.name}"
  | closed d n => LogText.aboutDoc "Coordinator" d s!"closed ({n} tasks cancelled)"
  | previewsStopped => "[Coordinator] Stopped"
  | subscriberFailed m => s!"[Coordinator] Callback error: {m}"
  | startRefused e m => s!"[Invoker] Failed to spawn {e}: {m}"
  | timedOut l => s!"[Invoker] Compiler timed out after {l.text}s"
  | compileCancelled => "[Invoker] Compile cancelled, process killed"
  | compilerExited c => s!"[Invoker] Compiler exited with {c}"
  | outputUnreadable r => s!"[Invoker] Output unreadable: {r}"
  | outputBlank => "[Invoker] Compiler exited 0 but wrote an empty output file"
  | usingCompiler p => s!"[Locator] Using compiler: {p}"
  | noCompiler cs => s!"[Locator] No compiler among {quotedList cs}"
  | pageBuilt d k n => LogText.aboutDoc "Renderer" d s!"built {k.name} ({n} chars)"
  | runtimeUnreadable p r => s!"[Renderer] Failed to read {p}: {r}"
  | runtimeFromUrl u => s!"[Renderer] Local inkjs not found, using CDN: {u}"
  | exportFailed d k f => LogText.aboutDoc "Export" d s!"{k.name} failed: {f.name}"
  | exported d k n => LogText.aboutDoc "Export" d s!"{k.name} ok ({n} chars)"
  | messageRefused r => s!"[MessageHandler] {r}"
  | clientDropped r => s!"[WebServer] Dropping client: {r}"
  | compilerAbsent => "[Bootstrap] inklecate not found, previews will show a compiler error"
  | componentsCreated => "[Bootstrap] Components created"
  | componentsStopped => "[Bootstrap] Components stopped"

/-- The line that is logged for a note. -/
def line (n : Note) : String := "[" ++ n.part.name ++ "] " ++ n.message

end Note
end InkPreview
