import InkPreview.Text.LineBreak
/-!
The script elements of a page, as a browser finds them. Line ends are unified first. A tag ends at the first `>`
outside of its quoted values. The text of a script ends at an end tag of its own, unless the text has opened a comment
and a script inside of it: then that end tag only leads back into the comment. Outside of script elements nothing is
read: the title and the style of a page hold no `<script` and no comment.
-/
namespace InkPreview.Page

def isTagBlank (c : Char) : Bool := c == '\t' || c == '\n' || c == '\x0c' || c == ' '

/-- Whether a character ends the name of a tag. -/
def endsName (c : Char) : Bool := isTagBlank c || c == '/' || c == '>'

/-! ### Tags -/

/-- An attribute of a tag: its name in lower case and its value as written. -/
structure Attribute where
  name : List Char
  value : List Char
  deriving DecidableEq, Repr

/-- How far a tag is read behind its name. -/
inductive TagState
  | between
  | name (name : List Char)
  /-- Behind a name and a blank: an equals sign may still follow. -/
  | named (name : List Char)
  | equals (name : List Char)
  | quoted (quote : Char) (name value : List Char)
  | bare (name value : List Char)

/-- The attributes of a tag behind those that were read already, and what follows the tag. -/
def readTag (as : List Attribute) : TagState → List Char → Option (List Attribute × List Char)
  | _, [] => none
  | .between, c :: cs =>
    if c = '>' then some (as, cs)
    else if endsName c then readTag as .between cs
    else readTag as (.name [c.toLower]) cs
  | .name n, c :: cs =>
    if c = '>' then some (as ++ [⟨n, []⟩], cs)
    else if c = '=' then readTag as (.equals n) cs
    else if c = '/' then readTag (as ++ [⟨n, []⟩]) .between cs
    else if isTagBlank c then readTag as (.named n) cs
    else readTag as (.name (n ++ [c.toLower])) cs
  | .named n, c :: cs =>
    if c = '>' then some (as ++ [⟨n, []⟩], cs)
    else if c = '=' then readTag as (.equals n) cs
    else if c = '/' then readTag (as ++ [⟨n, []⟩]) .between cs
    else if isTagBlank c then readTag as (.named n) cs
    else readTag (as ++ [⟨n, []⟩]) (.name [c.toLower]) cs
  | .equals n, c :: cs =>
    if c = '>' then some (as ++ [⟨n, []⟩], cs)
    else if isTagBlank c then readTag as (.equals n) cs
    else if c = '"' ∨ c = '\'' then readTag as (.quoted c n []) cs
    else readTag as (.bare n [c]) cs
  | .quoted q n v, c :: cs =>
    if c = q then readTag (as ++ [⟨n, v⟩]) .between cs
    else readTag as (.quoted q n (v ++ [c])) cs
  | .bare n v, c :: cs =>
    if c = '>' then some (as ++ [⟨n, v⟩], cs)
    else if isTagBlank c then readTag (as ++ [⟨n, v⟩]) .between cs
    else readTag as (.bare n (v ++ [c])) cs

theorem readTag_length {as bs : List Attribute} {s : TagState} {cs rest : List Char}
    (h : readTag as s cs = some (bs, rest)) : rest.length < cs.length := by
  fun_induction readTag as s cs with
  | case1 => cases h
  | _ =>
    simp_all
    try omega

/-! ### The text of a script -/

/-- What the text of a script is in: nothing, a comment, or a script inside of a comment. -/
inductive Depth
  | plain
  | comment
  | nested
  deriving DecidableEq, Repr

/-- A place in the text of a script. -/
structure Spot where
  depth : Depth
  /-- How many dashes stand right before the place. -/
  dashes : Nat
  /-- What stands there of a comment's opening or of a tag, in lower case. -/
  opening : List Char
  deriving DecidableEq, Repr

def Spot.start : Spot := ⟨.plain, 0, []⟩

def commentOpening : List Char := ['<', '!', '-', '-']
def scriptOpening : List Char := ['<', 's', 'c', 'r', 'i', 'p', 't']
def scriptClosing : List Char := ['<', '/', 's', 'c', 'r', 'i', 'p', 't']

/-- An opening with one more character, or nothing if that starts none of the three. -/
def lengthen (opening : List Char) (c : Char) : List Char :=
  if c = '<' then ['<']
  else if opening.isEmpty then []
  else
    let longer := opening ++ [c.toLower]
    if longer.isPrefixOf commentOpening || longer.isPrefixOf scriptOpening || longer.isPrefixOf scriptClosing then longer
    else []

/-- One more character of the text. There is none if it ends the name of the script's own end tag. -/
def Spot.read (s : Spot) (c : Char) : Option Spot :=
  if s.opening = scriptClosing ∧ endsName c then
    match s.depth with
    | .plain | .comment => none
    | .nested => some ⟨.comment, 0, []⟩
  else if s.opening = scriptOpening ∧ endsName c ∧ s.depth = .comment then some ⟨.nested, 0, []⟩
  else
    let dashes := if c = '-' then s.dashes + 1 else 0
    let opening := lengthen s.opening c
    if opening = commentOpening ∧ s.depth = .plain then some ⟨.comment, dashes, []⟩
    else if c = '>' ∧ 2 ≤ s.dashes then some ⟨.plain, 0, []⟩
    else some ⟨s.depth, dashes, opening⟩

/-- A null character is shown as the sign for a character that is missing. -/
def visible (c : Char) : Char := if c = '\x00' then '\ufffd' else c

/-- The text of a script and what follows the name of its end tag. The characters that were read are kept in reverse;
at the end they include that name. -/
def scriptText (s : Spot) (seen : List Char) : List Char → Option (List Char × List Char)
  | [] => none
  | c :: cs =>
    match s.read c with
    | some s => scriptText s (visible c :: seen) cs
    | none => some ((seen.drop scriptClosing.length).reverse, c :: cs)

/-! ### Elements -/

structure Script where
  attributes : List Attribute
  text : List Char
  deriving DecidableEq, Repr

/-- Whether a text starts with the name of a script's tag. -/
def namesScript (cs : List Char) : Bool :=
  (cs.take 6).map Char.toLower == ['s', 'c', 'r', 'i', 'p', 't'] && (cs[6]?.any endsName)

/-- A script element behind its start tag, and what follows it. An element that is not closed is none. -/
def readElement (attributes : List Attribute) (cs : List Char) : Option (Script × List Char) := do
  let (text, cs) ← scriptText .start [] cs
  let (_, rest) ← readTag [] .between cs
  pure (⟨attributes, text⟩, rest)

/-- The first script element of a text, and what follows it. -/
def nextScript : List Char → Option (Script × List Char)
  | [] => none
  | c :: cs =>
    if c = '<' ∧ namesScript cs then (readTag [] .between (cs.drop 6)).bind fun r => readElement r.1 r.2
    else nextScript cs

theorem scriptText_length {s : Spot} {seen cs text rest : List Char} (h : scriptText s seen cs = some (text, rest)) :
    rest.length ≤ cs.length := by
  induction cs generalizing s seen with
  | nil => cases h
  | cons c cs ih =>
    unfold scriptText at h
    split at h
    · exact Nat.le_succ_of_le (ih h)
    · cases h
      exact Nat.le_refl _

theorem readElement_length {as : List Attribute} {cs rest : List Char} {e : Script}
    (h : readElement as cs = some (e, rest)) : rest.length < cs.length := by
  simp only [readElement, Option.bind_eq_bind, Option.bind_eq_some_iff, Prod.exists, Option.pure_def,
    Option.some.injEq] at h
  obtain ⟨text, close, read, bs, rest', closed, eq⟩ := h
  cases eq
  exact Nat.lt_of_lt_of_le (readTag_length closed) (scriptText_length read)

theorem nextScript_length {cs rest : List Char} {e : Script} (h : nextScript cs = some (e, rest)) :
    rest.length < cs.length := by
  induction cs with
  | nil => cases h
  | cons c cs ih =>
    unfold nextScript at h
    split at h
    · obtain ⟨opened, tag, h⟩ := Option.bind_eq_some_iff.1 h
      have := readTag_length tag
      have := readElement_length h
      simp only [List.length_drop, List.length_cons] at *
      omega
    · exact Nat.lt_succ_of_lt (ih h)

/-- The script elements of a page, first to last. -/
def scripts (cs : List Char) : List Script :=
  match _read : nextScript cs with
  | none => []
  | some (e, rest) => e :: scripts rest
termination_by cs.length
decreasing_by exact nextScript_length _read

end InkPreview.Page
