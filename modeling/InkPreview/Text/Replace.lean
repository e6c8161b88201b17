/-!
Replacing every occurrence of a piece of text, from left to right and without overlap.
-/
namespace InkPreview.Text

/-- `skip` counts the characters of an occurrence that are still to be passed over. -/
def replaceFrom (old new : List Char) : Nat → List Char → List Char
  | _, [] => []
  | k + 1, _ :: rest => replaceFrom old new k rest
  | 0, c :: rest =>
    if old.isPrefixOf (c :: rest) then new ++ replaceFrom old new (old.length - 1) rest
    else c :: replaceFrom old new 0 rest

/-- Every occurrence of a non-empty `old` gives way to `new`. -/
def replace (old new cs : List Char) : List Char :=
  if old.isEmpty then cs else replaceFrom old new 0 cs

/-- Whether `part` stands somewhere in the text. -/
def isInfix (part : List Char) : List Char → Bool
  | [] => part.isEmpty
  | c :: rest => part.isPrefixOf (c :: rest) || isInfix part rest

end InkPreview.Text
