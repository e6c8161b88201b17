import InkPreview.Fault
import InkPreview.Files.Path
import InkPreview.Text.LineBreak
/-!
A tree of files, directories and links, and the operations of the system on it. Entries are filed
under their names from the root; the root itself is always there. Looking a path up follows the
links on its way, and fails with the refusal of the first name that cannot be passed. Directories
have no modes: the process may search and write every directory of the tree.
-/
namespace InkPreview.Files

inductive Entry
  | file (content : List UInt8) (mode : Nat)
  | directory
  | link (target : String)
  deriving DecidableEq, Repr

abbrev Place := List String

structure Tree where
  entries : List (Place × Entry)
  /-- The current directory, and how it is written in messages. -/
  here : Place
  hereText : String
  deriving DecidableEq, Repr

/-- What a path leads to: an entry, or a free name in a directory. -/
inductive Found
  | entry (place : Place) (e : Entry)
  | free (place : Place)
  deriving DecidableEq, Repr

namespace Tree

/-- The entry at a place; the root is a directory. -/
def at? (t : Tree) (p : Place) : Option Entry :=
  if p.isEmpty then some .directory else t.entries.lookup p

def remove (t : Tree) (p : Place) : Tree :=
  { t with entries := t.entries.filter fun e => e.1 != p }

/-- Replaces what is at a place. -/
def put (t : Tree) (p : Place) (e : Entry) : Tree :=
  { t with entries := (t.remove p).entries ++ [(p, e)] }

/-- The longest name, in bytes, and the longest path. -/
def nameLimit : Nat := 255
def pathLimit : Nat := 4096

/-- How many links may be followed on the way to one entry. -/
def linkLimit : Nat := 40

/-- Walks on from a directory. A link is followed in the middle of a path, and at its end if
`follow` is set; each link followed takes one from `links`. -/
def walk (t : Tree) (follow : Bool) : Nat → Nat → Place → List String → Except OsError Found
  | 0, _, _, _ => .error .tooManyLinks
  | fuel + 1, links, place, names =>
    match names with
    | [] => .ok (.entry place .directory)
    | n :: rest =>
      if n = "" || n = "." then walk t follow fuel links place rest
      else if n = ".." then walk t follow fuel links place.dropLast rest
      else if nameLimit < n.utf8ByteSize then .error .nameTooLong
      else
        let last := rest.isEmpty
        match t.at? (place ++ [n]) with
        | none => if rest.all (· == "") then .ok (.free (place ++ [n])) else .error .notFound
        | some .directory => walk t follow fuel links (place ++ [n]) rest
        | some (.file content mode) =>
          if last then .ok (.entry (place ++ [n]) (.file content mode)) else .error .notDirectory
        | some (.link target) =>
          if last && !follow then .ok (.entry (place ++ [n]) (.link target))
          else
            match links with
            | 0 => .error .tooManyLinks
            | links + 1 =>
              let from' := if target.startsWith "/" then [] else place
              walk t follow fuel links from' (Path.namesOf target ++ rest)

/-- Enough steps for any path with the links it may pass through. -/
def walkFuel (t : Tree) (names : List String) : Nat :=
  let longest := t.entries.foldl (fun n e => match e.2 with
    | .link target => max n (Path.namesOf target).length
    | _ => n) 0
  names.length + (linkLimit + 1) * (longest + 1) + 1

def find (t : Tree) (follow : Bool) (path : String) : Except OsError Found :=
  if path = "" then .error .notFound
  else if pathLimit ≤ path.utf8ByteSize then .error .nameTooLong
  else
    let names := Path.namesOf path
    walk t follow (t.walkFuel names) linkLimit (if path.startsWith "/" then [] else t.here) names

/-- A tree with nothing in it but the current directory and those above it. -/
def new (here : Place) (hereText : String) : Tree :=
  let above := (List.range here.length).map fun n => (here.take (n + 1), Entry.directory)
  ⟨above, here, hereText⟩

def hasNull (path : String) : Bool := path.toList.contains (Char.ofNat 0)

/-- Asks about a path. Refusals that only say that nothing is there count as no answer; no directory on the way
refuses to be searched. -/
def probe (t : Tree) (path : String) : Except FileFault (Option Entry) :=
  if hasNull path then .ok none
  else
    match t.find true path with
    | .ok (.entry _ e) => .ok (some e)
    | .ok (.free _) => .ok none
    | .error .notFound | .error .notDirectory | .error .tooManyLinks => .ok none
    | .error e => .error (.os e path)

def isFile (t : Tree) (path : String) : Except FileFault Bool :=
  (t.probe path).map fun e => match e with
    | some (.file _ _) => true
    | _ => false

def isDirectory (t : Tree) (path : String) : Except FileFault Bool :=
  (t.probe path).map fun e => match e with
    | some .directory => true
    | _ => false

/-- Whether the mode of a file lets anyone execute it. -/
def executableMode (mode : Nat) : Bool := mode / 64 % 2 = 1 || mode / 8 % 2 = 1 || mode % 2 = 1

def isExecutable (t : Tree) (path : String) : Except FileFault Bool :=
  (t.probe path).map fun e => match e with
    | some (.file _ mode) => executableMode mode
    | _ => false

def readBytes (t : Tree) (path : String) : Except FileFault (List UInt8) :=
  if hasNull path then .error .nullByte
  else
    match t.find true path with
    | .ok (.entry _ (.file content _)) => .ok content
    | .ok (.entry _ _) => .error (.os .isDirectory path)
    | .ok (.free _) => .error (.os .notFound path)
    | .error e => .error (.os e path)

/-- The text of a file, every line end a line feed. -/
def readText (t : Tree) (path : String) : Except Fault String :=
  match t.readBytes path with
  | .error e => .error (.file e)
  | .ok bytes =>
    match Text.Utf8.decode bytes with
    | .ok cs => .ok (String.ofList (Text.unifyLines cs))
    | .error e => .error (.notText e)

def makeDirectory (t : Tree) (path : String) : Except FileFault Tree :=
  if hasNull path then .error .nullByte
  else
    match t.find false path with
    | .ok (.free place) => .ok (t.put place .directory)
    | .ok (.entry _ _) => .error (.os .alreadyThere path)
    | .error e => .error (.os e path)

/-- Makes a directory and those above it that are missing. One that is there already is fine. -/
def makeDirectories (t : Tree) : Nat → Path → Tree × Except FileFault Unit
  | 0, p => (t, .error (.os .notFound p.text))
  | fuel + 1, p =>
    let settle (t : Tree) (e : FileFault) : Tree × Except FileFault Unit :=
      match t.isDirectory p.text with
      | .ok true => (t, .ok ())
      | .ok false => (t, .error e)
      | .error e => (t, .error e)
    match t.makeDirectory p.text with
    | .ok t => (t, .ok ())
    | .error (.os .notFound path) =>
      if p.parent = p then (t, .error (.os .notFound path))
      else
        match makeDirectories t fuel p.parent with
        | (t, .error e) => (t, .error e)
        | (t, .ok ()) =>
          match t.makeDirectory p.text with
          | .ok t => (t, .ok ())
          | .error (.os .notFound path) => (t, .error (.os .notFound path))
          | .error (.os e path) => settle t (.os e path)
          | .error e => (t, .error e)
    | .error (.os e path) => settle t (.os e path)
    | .error e => (t, .error e)

/-- Creates a file that must not be there yet, from its names below the root. -/
def createFile (t : Tree) (names : List String) (shown : String) (content : List UInt8)
    (mode : Nat) : Except FileFault (Place × Tree) :=
  if hasNull shown then .error .nullByte
  else if pathLimit ≤ ("/" ++ "/".intercalate names).utf8ByteSize then .error (.os .nameTooLong shown)
  else
    match walk t false (t.walkFuel names) linkLimit [] names with
    | .ok (.free place) => .ok (place, t.put place (.file content mode))
    | .ok (.entry _ _) => .error (.os .alreadyThere shown)
    | .error e => .error (.os e shown)

/-- Why a path that ends in dots, or in no name at all, cannot be taken as a file's new place. What
is before the dots is looked at first. -/
def refuseDots (t : Tree) (path : String) : OsError :=
  let above := "/".intercalate (Path.namesOf path).dropLast
  let above := if path.startsWith "/" then "/" ++ above else if above = "" then "." else above
  match t.find true above with
  | .ok (.entry _ .directory) => .busy
  | .ok (.entry _ _) => .notDirectory
  | .ok (.free _) => .notFound
  | .error e => e

def endsInDots (path : String) : Bool :=
  let last := (Path.namesOf path).getLastD ""
  last = "." || last = ".." || (last = "" && path != "")

/-- Moves a file to a path in one step. A file or link there is replaced, a directory is not. -/
def moveFile (t : Tree) (place : Place) (shown path : String) : Except FileFault Tree :=
  if hasNull path then .error .nullByte
  else if endsInDots path then .error (.between (t.refuseDots path) shown path)
  else
    match t.find false path, t.at? place with
    | .ok (.entry _ .directory), _ => .error (.between .isDirectory shown path)
    | .ok (.entry target _), some e => .ok ((t.remove place).put target e)
    | .ok (.free target), some e => .ok ((t.remove place).put target e)
    | .ok _, none => .error (.between .notFound shown path)
    | .error e, _ => .error (.between e shown path)

/-- Fills a file, which is created if need be. A link at the path is followed. -/
def fillFile (t : Tree) (path : String) (content : List UInt8) (mode : Nat) : Except FileFault Tree :=
  if hasNull path then .error .nullByte
  else
    match t.find true path with
    | .ok (.entry place (.file _ _)) | .ok (.free place) => .ok (t.put place (.file content mode))
    | .ok (.entry _ _) => .error (.os .isDirectory path)
    | .error e => .error (.os e path)

def linkFile (t : Tree) (path target : String) : Except FileFault Tree :=
  if hasNull path || hasNull target then .error .nullByte
  else if target = "" then .error (.between .notFound target path)
  else
    match t.find false path with
    | .ok (.free place) => .ok (t.put place (.link target))
    | .ok (.entry _ _) => .error (.between .alreadyThere target path)
    | .error e => .error (.between e target path)

/-- Puts something at a path once the directories above it are there. -/
def below (t : Tree) (path : String) (put : Tree → String → Except FileFault Tree) :
    Tree × Except FileFault Unit :=
  let p := Path.ofText path
  match t.makeDirectories (p.names.length + 2) p.parent with
  | (t, .error e) => (t, .error e)
  | (t, .ok ()) =>
    match put t p.text with
    | .ok t => (t, .ok ())
    | .error e => (t, .error e)

/-- Writes a file, with the directories above it. -/
def writeFile (t : Tree) (path : String) (content : List UInt8) (mode : Nat) :
    Tree × Except FileFault Unit :=
  t.below path fun t path => t.fillFile path content mode

/-- Makes a link, with the directories above it. -/
def makeLink (t : Tree) (path target : String) : Tree × Except FileFault Unit :=
  t.below path fun t path => t.linkFile path target

/-- Sets the mode of a file. That of a directory is of no interest. -/
def changeMode (t : Tree) (path : String) (mode : Nat) : Except FileFault Tree :=
  if hasNull path then .error .nullByte
  else
    match t.find true path with
    | .ok (.entry place (.file content _)) => .ok (t.put place (.file content mode))
    | .ok (.entry _ _) => .ok t
    | .ok (.free _) => .error (.os .notFound path)
    | .error e => .error (.os e path)

def withoutLastSlashes (path : String) : String :=
  String.ofList (path.toList.reverse.dropWhile (· = '/')).reverse

/-- Removes a file or a link. A slash behind its name asks for a directory, which is not removed. -/
def removeFile (t : Tree) (path : String) : Except FileFault Tree :=
  let bare := withoutLastSlashes path
  if hasNull path then .error .nullByte
  else
    match t.find false (if bare = "" then path else bare) with
    | .ok (.entry _ .directory) => .error (.os .isDirectory path)
    | .ok (.entry place _) =>
      if bare = path then .ok (t.remove place) else .error (.os .notDirectory path)
    | .ok (.free _) => .error (.os .notFound path)
    | .error e => .error (.os e path)

/-- A path from the root as it is written in messages. Double dots are taken away by name alone. -/
def absolute (t : Tree) (p : Path) : Place × String :=
  if p.root = "" then
    let place := Path.collapse t.here p.names
    if t.here.isPrefixOf place then
      let below := place.drop t.here.length
      (place, if below.isEmpty then t.hereText else t.hereText ++ "/" ++ "/".intercalate below)
    else (place, "/" ++ "/".intercalate place)
  else
    let place := Path.collapse [] p.names
    (place, p.root ++ "/".intercalate place)

/-- What is below the current directory, each with its path from there: files with their content,
links to files with the content they lead to, directories without. -/
def listing (t : Tree) : List (String × Option (List UInt8)) :=
  let below := t.entries.filter fun e => t.here.isPrefixOf e.1 && e.1 != t.here
  below.map fun e =>
    let path := "/".intercalate (e.1.drop t.here.length)
    match e.2 with
    | .file content _ => (path, some content)
    | .directory => (path ++ "/", none)
    | .link _ =>
      match t.find true path with
      | .ok (.entry _ (.file content _)) => (path, some content)
      | .ok (.entry _ .directory) => (path ++ "/", none)
      | _ => (path, none)

end Tree
end InkPreview.Files
