import InkPreview.Text.Printable
import InkPreview.Text.Utf8
/-!
Text between quotes, as it stands in messages: single quotes unless only those occur inside, and
an escape for the quote, the backslash and every character that cannot be shown.
-/
namespace InkPreview.Text

/-- Double quotes are taken only for text with a single quote and no double quote. -/
def quoteFor (cs : List Char) : Char :=
  if cs.contains '\'' && !cs.contains '"' then '"' else '\''

def quoteChar (quote c : Char) : List Char :=
  if c = quote || c = '\\' then ['\\', c]
  else if c = '\n' then ['\\', 'n']
  else if c = '\r' then ['\\', 'r']
  else if c = '\t' then ['\\', 't']
  else if isPrintable c then [c]
  else if c.toNat < 0x100 then '\\' :: 'x' :: Utf8.hexDigits 2 c.toNat
  else if c.toNat < 0x10000 then '\\' :: 'u' :: Utf8.hexDigits 4 c.toNat
  else '\\' :: 'U' :: Utf8.hexDigits 8 c.toNat

def quote (s : String) : String :=
  let q := quoteFor s.toList
  String.ofList (q :: s.toList.flatMap (quoteChar q) ++ [q])

end InkPreview.Text
