import InkPreview.Metrics
import InkPreview.Page.Build
/-!
Rendered pages, one current page for each document. A page is built again only when the payload
changes; a pending mode shows the page that is there.
-/
namespace InkPreview

/-- A page built for a document. Its number tells it from every other page ever built. -/
structure Artifact where
  serial : Nat
  doc : String
  mode : Mode
  html : String
  deriving DecidableEq, Repr, Inhabited

/-- What is known of a document's preview: the payload, mode and page last recorded, and how often
a page was recorded. -/
structure Preview where
  doc : String
  content : Option String
  mode : Option Mode
  artifact : Option Artifact
  count : Nat
  deriving DecidableEq, Repr, Inhabited

def Preview.blank (doc : String) : Preview := ⟨doc, none, none, none, 0⟩

/-- The previews of all documents, in the order in which they were opened. -/
structure Previews where
  entries : List Preview
  deriving DecidableEq, Repr, Inhabited

namespace Previews

def find? (p : Previews) (doc : String) : Option Preview := p.entries.find? (·.doc == doc)

/-- Adds a blank preview unless there is one. -/
def ensure (p : Previews) (doc : String) : Previews :=
  if (p.find? doc).isSome then p else ⟨p.entries ++ [Preview.blank doc]⟩

def isUnchanged (p : Previews) (doc content : String) : Bool :=
  match p.find? doc with
  | some s => s.artifact.isSome && s.content == some content
  | none => false

def record (p : Previews) (doc content : String) (mode : Mode) (a : Artifact) : Previews :=
  let put (s : Preview) : Preview :=
    if s.doc == doc then ⟨doc, some content, some mode, some a, s.count + 1⟩ else s
  ⟨(p.ensure doc).entries.map put⟩

def artifact? (p : Previews) (doc : String) : Option Artifact := (p.find? doc).bind (·.artifact)

def remove (p : Previews) (doc : String) : Previews := ⟨p.entries.filter (·.doc != doc)⟩

def docs (p : Previews) : List String := p.entries.map (·.doc)

end Previews

/-- The previews together with the tag that loads the story runtime and the next page number. -/
structure Gallery where
  tag : String
  previews : Previews
  next : Nat
  deriving DecidableEq, Repr, Inhabited

/-- How a request for a page was met. -/
inductive Rendering
  | kept
  | placeholder
  | reused
  | built
  deriving DecidableEq, Repr

/-- Counts how a request for a page was met. -/
def Rendering.count (how : Rendering) (kind : Kind) (m : Metrics) : Metrics :=
  match how with
  | .kept | .placeholder => m
  | .reused => m.count "render.reused"
  | .built => m.countBy "render.built" "mode" kind.name

namespace Gallery

def new (tag : String) : Gallery := ⟨tag, ⟨[]⟩, 0⟩

def build (g : Gallery) (mode : Mode) (title : Option String) : String := Page.build g.tag mode title

/-- A page that nobody has seen yet. -/
def fresh (g : Gallery) (doc : String) (mode shown : Mode) : Artifact :=
  ⟨g.next, doc, mode, g.build shown none⟩

/-- The page for a mode. A pending mode changes nothing that is recorded: it keeps the last page,
or shows an empty page that is not recorded. -/
def render (g : Gallery) (doc : String) (mode : Mode) : Artifact × Rendering × Gallery :=
  if mode.kind = .pending then
    match g.previews.artifact? doc with
    | some a => (a, .kept, g)
    | none => (g.fresh doc mode .empty, .placeholder, { g with next := g.next + 1 })
  else
    let content := mode.payload
    match if g.previews.isUnchanged doc content then g.previews.artifact? doc else none with
    | some a => (a, .reused, g)
    | none =>
      let a := g.fresh doc mode mode
      (a, .built, { g with previews := g.previews.record doc content mode a, next := g.next + 1 })

def discard (g : Gallery) (doc : String) : Gallery :=
  { g with previews := g.previews.remove doc }

/-- The page to hand out for a document: its last one, or the empty page. -/
def current (g : Gallery) (doc : String) : String :=
  match g.previews.artifact? doc with
  | some a => a.html
  | none => g.build .empty none

end Gallery
end InkPreview
