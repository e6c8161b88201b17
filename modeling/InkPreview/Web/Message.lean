import InkPreview.Document
import InkPreview.Gallery
import InkPreview.Json.Reader
import InkPreview.Snippet
/-!
Messages to clients, and the requests they make in return.
-/
namespace InkPreview.Web

inductive Message
  | preview (doc : String) (generation : Nat) (kind : Kind) (html : String)
  | editAck (doc : DocId) (generation : Nat)
  | closeResult (doc : Json)
  | snippet (s : Snippet)
  | error (message : String)
  deriving Repr

def Message.toJson : Message → Json
  | preview d g k h => .obj [("type", .str "preview"), ("document_id", .str d),
      ("generation", .whole g), ("mode", .str k.name), ("html", .str h)]
  | editAck d g => .obj [("type", .str "edit_ack"), ("document_id", d.toJson),
      ("generation", .whole g)]
  | closeResult d => .obj [("type", .str "close_result"), ("document_id", d)]
  | snippet s => .obj [("type", .str "snippet"), ("name", .str s.name), ("ink", .str s.ink)]
  | error m => .obj [("type", .str "error"), ("message", .str m)]

/-- What a client asks for. The names of documents are as the client wrote them. -/
inductive Ask
  | edit (doc : Json) (text : String)
  | view (doc : Json)
  | close (doc : Json)
  | snippet (s : Snippet)
  /-- Nothing that can be done; the reason goes back to the client. -/
  | refused (reason : String)
  deriving Repr

namespace Ask

def field (v : Json) (key : String) : Json := (v.get? key).getD .null

def ofEdit (v : Json) : Ask :=
  let doc := field v "document_id"
  match field v "text" with
  | .str text => if doc.isGiven then .edit doc text else .refused "edit requires document_id and text"
  | _ => .refused "edit requires document_id and text"

def ofView (v : Json) : Ask :=
  let doc := field v "document_id"
  if doc.isGiven then .view doc else .refused ("unknown document: " ++ doc.text)

/-- A message without a name asks for the snippet without a name. -/
def ofSnippet (v : Json) : Ask :=
  let name := ((v.get? "name").getD (.str "")).text
  match Snippet.find? name with
  | some s => .snippet s
  | none => .refused ("unknown snippet: " ++ (field v "name").text)

/-- Reads an object as what it asks for. -/
def ofObject (v : Json) : Ask :=
  match field v "action" with
  | .str "edit" => ofEdit v
  | .str "open" => ofView v
  | .str "close" => .close (field v "document_id")
  | .str "snippet" => ofSnippet v
  | action => .refused ("unknown action: " ++ action.text)

/-- Reads a message. Text that no reader gets through is a fault and not an answer. -/
def ofText (data : String) : Except Json.Fault Ask :=
  match Json.read data with
  | .error .malformed => .ok (.refused "invalid JSON")
  | .error f => .error f
  | .ok (.obj members) => .ok (ofObject (.obj members))
  | .ok _ => .ok (.refused "message must be an object")

end Ask
end InkPreview.Web
