import InkPreview.Live.Schedule
/-!
Exports. A source is handed over as it is; the other kinds are compiled each time from the given
text alone.
-/
namespace InkPreview.Live.World

def beginExport (w : World) (t : TaskId) (frames : List Frame) (doc text : String)
    (kind : ExportKind) (title : Option String) : World :=
  match kind with
  | .source => (w.countBy "export.ok" "kind" kind.name).ret t frames (.exported ⟨kind, text⟩)
  | _ => w.call t (.exporting doc kind title :: frames) (.compile text)

def exportContent (w : World) (kind : ExportKind) (title : Option String) (story : String) : String :=
  match kind with
  | .web => w.gallery.build (.compiled story) title
  | _ => story

def exportCompiled (w : World) (t : TaskId) (frames : List Frame) (doc : String) (kind : ExportKind)
    (title : Option String) (v : Value) : World :=
  match v with
  | .outcome (.success story) =>
    let content := w.exportContent kind title story
    ((w.countBy "export.ok" "kind" kind.name).note (.exported doc kind content.length)).ret t frames
      (.exported ⟨kind, content⟩)
  | .outcome (.failed k m) =>
    ((w.countBy "export.failed" "kind" kind.name).note (.exportFailed doc kind k)).fail t frames
      (.exportFailed k m)
  | _ => w.ret t frames .unit

end InkPreview.Live.World
