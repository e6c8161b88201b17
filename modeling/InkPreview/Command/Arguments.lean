import InkPreview.Decimal.Literal
import InkPreview.Export.Kind
import InkPreview.Files.Path
import InkPreview.Text.Quoted
/-!
The arguments of the export command. Arguments that start with a dash are options where they can be
one: an option may be shortened to any part that only it begins with, and its value may follow as an
argument, after an equals sign, or, for a one-letter option, at once. Two dashes end the options; as
a value that is written together with its option they are no value at all.
-/
namespace InkPreview.Command

open Files (Path)

/-- The options the command knows. -/
inductive Flag
  | help
  | kind
  | output
  | compiler
  | preview
  | logLevel
  deriving DecidableEq, Repr

namespace Flag

def takesValue : Flag → Bool
  | help | preview => false
  | kind | output | compiler | logLevel => true

/-- Every way to write each option out, in the order of the help text. -/
def spellings : List (String × Flag) :=
  [("-h", help), ("--help", help), ("--kind", kind), ("-o", output), ("--output", output),
    ("--compiler", compiler), ("--preview", preview), ("--log-level", logLevel)]

def ofSpelling? (s : String) : Option Flag := spellings.lookup s

/-- All spellings of an option, as messages name it. -/
def name (f : Flag) : String :=
  "/".intercalate ((spellings.filter (·.2 == f)).map (·.1))

end Flag

/-- A refusal of the arguments as a whole. -/
inductive ArgumentFault
  | ambiguous (written : String) (matching : List String)
  | valueMissing (f : Flag)
  | valueUnwanted (f : Flag) (value : String)
  | unknownKind (value : String)
  | sourceMissing
  | unrecognized (arguments : List String)
  deriving DecidableEq, Repr

namespace ArgumentFault

def aboutFlag (f : Flag) (what : String) : String := "argument " ++ f.name ++ ": " ++ what

def kindChoices : String := ", ".intercalate (ExportKind.all.map fun k => Text.quote k.name)

def text : ArgumentFault → String
  | ambiguous w ms => "ambiguous option: " ++ w ++ " could match " ++ ", ".intercalate ms
  | valueMissing f => aboutFlag f "expected one argument"
  | valueUnwanted f v => aboutFlag f ("ignored explicit argument " ++ Text.quote v)
  | unknownKind v =>
    aboutFlag .kind ("invalid choice: " ++ Text.quote v ++ " (choose from " ++ kindChoices ++ ")")
  | sourceMissing => "the following arguments are required: source"
  | unrecognized args => "unrecognized arguments: " ++ " ".intercalate args

def message (f : ArgumentFault) : String := "inkies-export: error: " ++ f.text

end ArgumentFault

/-- Why the command ends before it does anything. -/
inductive Stop
  | help
  | refused (f : ArgumentFault)
  deriving DecidableEq, Repr

/-- What is written together with an option. -/
inductive Attached
  | nothing
  /-- After the equals sign behind a long option. -/
  | equals (value : String)
  /-- Behind a one-letter option. -/
  | direct (value : String)
  deriving DecidableEq, Repr

/-- Behind a one-letter option an equals sign does not matter. -/
def Attached.behindLetter : Attached → Attached
  | equals value => direct value
  | a => a

inductive Token
  | argument (text : String)
  | option (f : Flag) (a : Attached)
  /-- It looks like an option, but there is none of this name. -/
  | unknown (text : String)
  | dashes
  deriving DecidableEq, Repr

namespace Token

/-- What is before and after the first equals sign. -/
def splitEquals (cs : List Char) : String × Attached :=
  match cs.dropWhile (· ≠ '=') with
  | [] => (String.ofList cs, .nothing)
  | _ :: value => (String.ofList (cs.takeWhile (· ≠ '=')), .equals (String.ofList value))

/-- A whole or fractional number with a minus before it. A line feed may follow. -/
def isNegativeNumber (cs : List Char) : Bool :=
  let cs := if cs.getLast? = some '\n' then cs.dropLast else cs
  match cs.map Decimal.Literal.plainDigit with
  | '-' :: rest =>
    match rest.dropWhile Char.isDigit with
    | [] => !rest.isEmpty
    | '.' :: fraction => !fraction.isEmpty && fraction.all Char.isDigit
    | _ => false
  | _ => false

/-- The options that an argument with two dashes can be short for. -/
def completions (written : String) : List (String × Flag) :=
  Flag.spellings.filter fun s => written.toList.isPrefixOf s.1.toList

/-- The one-letter option at the front of an argument. -/
def oneLetter? : List Char → Option Token
  | '-' :: c :: rest =>
    (Flag.ofSpelling? (String.ofList ['-', c])).map fun f => option f (.direct (String.ofList rest))
  | _ => none

/-- An argument that starts with a dash but is no option: a negative number and anything with a
blank in it are arguments after all. -/
def other (text : String) (cs : List Char) : Token :=
  if isNegativeNumber cs || cs.contains ' ' then argument text else unknown text

def ofDashed (text : String) (cs : List Char) : Except ArgumentFault Token :=
  let (written, attached) := splitEquals cs
  match Flag.ofSpelling? text, Flag.ofSpelling? written with
  | some f, _ => .ok (option f .nothing)
  | none, some f => .ok (option f (if written.length = 2 then attached.behindLetter else attached))
  | none, none =>
    if cs.take 2 = ['-', '-'] then
      match completions written with
      | [] => .ok (other text cs)
      | [(_, f)] => .ok (option f attached)
      | several => .error (.ambiguous text (several.map (·.1)))
    else .ok ((oneLetter? cs).getD (other text cs))

/-- A single dash is an argument. -/
def ofText (text : String) : Except ArgumentFault Token :=
  match text.toList with
  | '-' :: c :: rest => ofDashed text ('-' :: c :: rest)
  | _ => .ok (argument text)

/-- After two dashes everything is an argument. -/
def ofArguments : List String → Except ArgumentFault (List Token)
  | [] => .ok []
  | a :: rest =>
    if a = "--" then .ok (dashes :: rest.map argument)
    else
      match ofText a, ofArguments rest with
      | .error e, _ => .error e
      | _, .error e => .error e
      | .ok t, .ok ts => .ok (t :: ts)

end Token

/-- The value of an option that was written out. -/
inductive Given (α : Type)
  | value (a : α)
  /-- Two dashes in the place of a value. -/
  | nothing
  deriving DecidableEq, Repr

def Given.ofText (s : String) : Given String := if s = "--" then nothing else value s

def Given.text : Given String → String
  | value s => s
  | nothing => ""

/-- What the command was asked to do. -/
structure Arguments where
  source : Path
  kind : Given ExportKind
  output : Given String
  compiler : Option (Given String)
  preview : Bool
  logLevel : Option (Given String)
  deriving DecidableEq, Repr

/-- The arguments while they are read. -/
structure Draft where
  source : Option Path
  kind : Given ExportKind
  output : Given String
  compiler : Option (Given String)
  preview : Bool
  logLevel : Option (Given String)
  /-- What nothing could be done with. -/
  extras : List String
  deriving DecidableEq, Repr

namespace Draft

def start : Draft := ⟨none, .value .web, .value ".", none, false, none, []⟩

def takeExtra (d : Draft) (text : String) : Draft := { d with extras := d.extras ++ [text] }

/-- Carries out an option without a value. Help ends the reading. -/
def raise (d : Draft) : Flag → Except Stop Draft
  | .help => .error .help
  | .preview => .ok { d with preview := true }
  | _ => .ok d

/-- The kind that a value names. -/
def kindOf : Given String → Except Stop (Given ExportKind)
  | .nothing => .ok .nothing
  | .value s =>
    match ExportKind.ofName? s with
    | some kind => .ok (.value kind)
    | none => .error (.refused (.unknownKind s))

def set (d : Draft) (f : Flag) (value : String) : Except Stop Draft :=
  let given := Given.ofText value
  match f with
  | .kind => (kindOf given).map fun kind => { d with kind }
  | .output => .ok { d with output := given }
  | .compiler => .ok { d with compiler := some given }
  | .logLevel => .ok { d with logLevel := some given }
  | .help | .preview => .ok d

/-- What comes of the characters behind a one-letter option that takes no value. Each has to be a
one-letter option itself, and the first of them that takes a value takes the rest for it. Help is
the only such option without a value, so help is what comes of them unless they are refused. -/
def readLetters (f : Flag) (next : List Token) : List Char → Stop
  | [] => .help
  | c :: rest =>
    match Flag.ofSpelling? (String.ofList ['-', c]) with
    | none => .refused (.valueUnwanted f (String.ofList (c :: rest)))
    | some g =>
      if g.takesValue then
        match rest, next with
        | [], .argument _ :: _ => .help
        | [], _ => .refused (.valueMissing g)
        | _, _ => .help
      else readLetters g next rest

/-- An option with what is attached to it, and the tokens behind it. The answer is the draft and
whether the next token was used up. -/
def takeOption (d : Draft) (f : Flag) (a : Attached) (next : List Token) :
    Except Stop (Draft × Bool) :=
  if f.takesValue then
    match a, next with
    | .equals v, _ | .direct v, _ => (d.set f v).map (·, false)
    | .nothing, .argument v :: _ => (d.set f v).map (·, true)
    | .nothing, _ => .error (.refused (.valueMissing f))
  else
    match a with
    | .nothing => (d.raise f).map (·, false)
    | .equals v => .error (.refused (.valueUnwanted f v))
    | .direct "" => .error (.refused (.valueUnwanted f ""))
    | .direct v => .error (readLetters f next v.toList)

/-- The first argument is the source. -/
def takeArgument (d : Draft) (text : String) : Draft :=
  if d.source.isNone then { d with source := some (Path.ofText text) } else d.takeExtra text

/-- Two dashes beside the source are used up with it; anywhere else they are one too many. -/
def takeDashes (d : Draft) (besideSource : Bool) : Draft :=
  if besideSource then d else d.takeExtra "--"

def read (d : Draft) : List Token → Except Stop Draft
  | [] => .ok d
  | .argument s :: .dashes :: rest => read ((d.takeArgument s).takeDashes d.source.isNone) rest
  | .argument s :: rest => read (d.takeArgument s) rest
  | .dashes :: .argument s :: rest => read ((d.takeDashes d.source.isNone).takeArgument s) rest
  | .dashes :: rest => read (d.takeDashes false) rest
  | .unknown s :: rest => read (d.takeExtra s) rest
  | .option f a :: rest =>
    match d.takeOption f a rest with
    | .error e => .error e
    | .ok (d, used) => read d (rest.drop (if used then 1 else 0))
  termination_by ts => ts.length
  decreasing_by all_goals simp only [List.length_drop, List.length_cons]; omega

def finish (d : Draft) : Except Stop Arguments :=
  match d.source with
  | none => .error (.refused .sourceMissing)
  | some source =>
    if d.extras.isEmpty then
      .ok ⟨source, d.kind, d.output, d.compiler, d.preview, d.logLevel⟩
    else .error (.refused (.unrecognized d.extras))

end Draft

/-- Reads the arguments. All of them are told apart before any is carried out. -/
def Arguments.parse (args : List String) : Except Stop Arguments :=
  match Token.ofArguments args with
  | .error f => .error (.refused f)
  | .ok tokens =>
    match Draft.start.read tokens with
    | .error e => .error e
    | .ok d => d.finish

end InkPreview.Command
