import InkPreview.Document
import InkPreview.Files.Tree
/-!
Documents from files.
-/
namespace InkPreview.Library

/-- Creates a document under a new name with the text of a file, titled after the file. -/
def importFile (l : Library) (t : Files.Tree) (path : String) : Except Fault (Document × Library) :=
  let p := Files.Path.ofText path
  (t.readText p.text).map fun content => l.create (some p.stem) content none

end InkPreview.Library
