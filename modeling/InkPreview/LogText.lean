import InkPreview.Settings.Constants
/-!
The wording that log lines share: the short name of a document and a shortened source.
-/
namespace InkPreview.LogText

/-- A line about a document, which is named by the first eight characters of its name. -/
def aboutDoc (part doc message : String) : String :=
  let short := if doc = "" then "unknown" else String.ofList (doc.toList.take 8)
  "[" ++ part ++ ":" ++ short ++ "] " ++ message

def flatten (text : String) : List Char := text.toList.map fun c => if c = '\n' then '⏎' else c

/-- The beginning of a source on one line. A negative limit counts from the end; a limit that is
zero or not given is the usual one. -/
def excerpt (text : String) (limit : Option Int) : String :=
  let limit : Int := match limit with
    | none | some 0 => Settings.logSourceLimit
    | some n => n
  let flat := flatten text
  if flat.length ≤ limit then String.ofList flat
  else
    let kept := if limit < 0 then flat.length - limit.natAbs else limit.toNat
    String.ofList (flat.take kept) ++ "…"

end InkPreview.LogText
