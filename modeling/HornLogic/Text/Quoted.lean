import HornLogic.Text.Extending
import HornLogic.Text.Numeral

/-!
# Quoted text

A text between double quotes in which every character can be seen: quotes and
backslashes are escaped, the common controls have one-letter escapes, and any
other character without a visible form of its own is given by its code point.
-/

namespace HornLogic.Text

def quoteChar (c : Char) : List Char :=
  if c = '\x00' then ['\\', '0']
  else if c = '\t' then ['\\', 't']
  else if c = '\r' then ['\\', 'r']
  else if c = '\n' then ['\\', 'n']
  else if c = '\\' ∨ c = '"' then ['\\', c]
  else if isExtending c ∨ isUnprintable c then
    ['\\', 'u', '\x7b'] ++ hexDigits c.toNat ++ ['\x7d']
  else [c]

/-- A text in quotes, every character of it visible. -/
def quoted (text : String) : String :=
  String.ofList ('"' :: text.toList.flatMap quoteChar ++ ['"'])

end HornLogic.Text
