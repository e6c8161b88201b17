import InkPreview.Export.Kind
import InkPreview.Fault
import InkPreview.Json.Value
import InkPreview.Text.Wide
/-!
Requests of the web interface: which route a request takes, and the forms of its answers.
-/
namespace InkPreview.Web

structure Request where
  method : String
  path : String
  body : Option String
  deriving DecidableEq, Repr

inductive Body
  | json (v : Json)
  | text (s : String)
  /-- The fields that were asked for are not there or not of their type. -/
  | invalid
  deriving Repr

structure Response where
  status : Nat
  contentType : Option String
  body : Body
  disposition : Option String
  cacheControl : Option String
  crash : Option Fault
  deriving Repr

namespace Response

def json (status : Nat) (v : Json) : Response :=
  ⟨status, some "application/json", .json v, none, none, none⟩

/-- Textual media types name their character set. -/
def withCharset (mediaType : String) : String :=
  if mediaType.startsWith "text/" then mediaType ++ "; charset=utf-8" else mediaType

def html (content : String) : Response :=
  ⟨200, some (withCharset "text/html"), .text content, none, none, none⟩

def detail (status : Nat) (message : String) : Response :=
  json status (.obj [("detail", .str message)])

def invalid : Response := ⟨422, some "application/json", .invalid, none, none, none⟩

def download (e : Exported) : Response :=
  ⟨200, some (withCharset e.kind.mediaType), .text e.content,
    some ("attachment; filename=\"" ++ e.filename ++ "\""), none, none⟩

def crashed (f : Fault) : Response :=
  ⟨500, some (withCharset "text/plain"), .text "Internal Server Error", none, none, some f⟩

/-- The other spelling of the path, with or without its last slash, is the one to ask for. -/
def moved : Response := ⟨307, none, .text "", none, none, none⟩

end Response

/-- The path under which clients converse. -/
def conversationPath : String := "/ws"

inductive Route
  | index
  | listDocuments
  | createDocument
  | updateText (doc : String)
  | preview (doc : String)
  | exportAs (doc kind : String)
  | listSnippets
  | metrics
  deriving DecidableEq, Repr

namespace Route

/-- A line feed after a name that is fixed is passed over. -/
def dropLineFeed (name : String) : String :=
  if name.endsWith "\n" then String.ofList name.toList.dropLast else name

/-- The routes whose last name is fixed, each with its method. -/
def ofNames : List String → List (String × Route)
  | ["", ""] => [("GET", index)]
  | ["", "api", "documents"] => [("GET", listDocuments), ("POST", createDocument)]
  | ["", "api", "snippets"] => [("GET", listSnippets)]
  | ["", "api", "metrics"] => [("GET", metrics)]
  | ["", "api", "documents", doc, "text"] => if doc = "" then [] else [("PUT", updateText doc)]
  | ["", "api", "documents", doc, "preview"] => if doc = "" then [] else [("GET", preview doc)]
  | _ => []

/-- The routes of a path, each with its method. -/
def candidates (path : String) : List (String × Route) :=
  match path.splitOn "/" with
  | ["", "api", "documents", doc, "export", kind] =>
    if doc = "" || kind = "" then [] else [("GET", exportAs doc kind)]
  | names => ofNames (names.dropLast ++ [dropLineFeed (names.getLastD "")])

def dropSlashes (path : String) : String :=
  String.ofList (path.toList.reverse.dropWhile (· = '/')).reverse

def otherSpelling (path : String) : String :=
  if path.endsWith "/" then dropSlashes path else path ++ "/"

/-- The route of a request, or the answer that says why there is none. -/
def find (method path : String) : Except Response Route :=
  match candidates path with
  | [] =>
    if path ≠ "/" && !(candidates (otherSpelling path)).isEmpty then .error .moved
    else .error (.detail 404 "Not Found")
  | rs =>
    match rs.find? (·.1 == method) with
    | some r => .ok r.2
    | none => .error (.detail 405 "Method Not Allowed")

end Route

namespace Request

/-- Replaces each percent sign with two hexadecimal digits by the byte they stand for. -/
def percentBytes : List Char → List UInt8
  | [] => []
  | '%' :: a :: b :: rest =>
    match Json.hexValue? a, Json.hexValue? b with
    | some x, some y => UInt8.ofNat (x * 16 + y) :: percentBytes rest
    | _, _ => 0x25 :: percentBytes (a :: b :: rest)
  | c :: rest => String.utf8EncodeChar c ++ percentBytes rest

/-- The path with its percent signs decoded. A question mark is a character like any other. -/
def decodedPath (r : Request) : String :=
  String.ofList (Text.Utf8.decodeLossy (percentBytes r.path.toList))

/-- The body of a request as an object with the fields it must or may have. A field that is there
has to be text. -/
def stringField (v : Json) (key : String) (fallback : Option String) : Option String :=
  match v.get? key with
  | some (.str s) => some s
  | some _ => none
  | none => fallback

def unreadable : Response := .detail 400 "There was an error parsing the body"

/-- The body as an object, or the answer to a body that is none. -/
def object (r : Request) : Except Response Json :=
  match r.body with
  | none | some "" => .error .invalid
  | some s =>
    match Text.Wide.decode (Text.Utf8.encode s.toList) with
    | none => .error unreadable
    | some cs =>
      match Json.read (String.ofList cs) with
      | .ok (.obj members) => .ok (.obj members)
      | .ok _ => .error .invalid
      | .error .malformed => .error .invalid
      | .error _ => .error unreadable

end Request
end InkPreview.Web
