import HornLogic.Text.Numeral

/-!
# String literals of JSON

The characters between the quotes of a JSON string, in both directions.
Writing escapes quotes, backslashes and controls, and leaves every other
character as it is.  Reading accepts every escape; characters outside the
basic plane may be given by two escaped halves, and half a pair is refused.
-/

namespace HornLogic.Json

open Text

def escapeChar (c : Char) : List Char :=
  if c = '"' then ['\\', '"']
  else if c = '\\' then ['\\', '\\']
  else if c = '\n' then ['\\', 'n']
  else if c = '\r' then ['\\', 'r']
  else if c = '\t' then ['\\', 't']
  else if c = '\x08' then ['\\', 'b']
  else if c = '\x0c' then ['\\', 'f']
  else if c.toNat < 32 then '\\' :: 'u' :: fourHexDigits c.toNat
  else [c]

def escape (text : List Char) : List Char :=
  text.flatMap escapeChar

def shortEscape? : Char → Option Char
  | '"' => some '"'
  | '\\' => some '\\'
  | '/' => some '/'
  | 'b' => some '\x08'
  | 'f' => some '\x0c'
  | 'n' => some '\n'
  | 'r' => some '\r'
  | 't' => some '\t'
  | _ => none

def isHighHalf (unit : Nat) : Bool :=
  0xD800 ≤ unit && unit < 0xDC00

def isLowHalf (unit : Nat) : Bool :=
  0xDC00 ≤ unit && unit < 0xE000

/-- The character that two halves stand for. -/
def joinHalves (high low : Nat) : Char :=
  Char.ofNat (0x10000 + (high - 0xD800) * 0x400 + (low - 0xDC00))

/-- The text of a literal; nothing when an escape names half a pair. -/
def unescape? : List Char → Option (List Char)
  | [] => some []
  | '\\' :: 'u' :: a :: b :: c :: d :: rest =>
      let unit := ofDigits 16 [a, b, c, d]
      if isHighHalf unit then
        match rest with
        | '\\' :: 'u' :: a :: b :: c :: d :: rest =>
            let low := ofDigits 16 [a, b, c, d]
            if isLowHalf low then
              (unescape? rest).map (joinHalves unit low :: ·)
            else none
        | _ => none
      else if isLowHalf unit then none
      else (unescape? rest).map (Char.ofNat unit :: ·)
  | '\\' :: letter :: rest =>
      (shortEscape? letter).bind fun c => (unescape? rest).map (c :: ·)
  | c :: rest => (unescape? rest).map (c :: ·)

/--
Split a text after an opening quote into the contents of the literal and the
text behind its closing quote.  Controls have to be escaped.
-/
def splitLiteral? : List Char → Option (List Char × List Char)
  | [] => none
  | '"' :: rest => some ([], rest)
  | '\\' :: 'u' :: a :: b :: c :: d :: rest =>
      if [a, b, c, d].all isHexDigit then
        (splitLiteral? rest).map fun (inside, rest) =>
          ('\\' :: 'u' :: a :: b :: c :: d :: inside, rest)
      else none
  | '\\' :: letter :: rest =>
      (shortEscape? letter).bind fun _ =>
        (splitLiteral? rest).map fun (inside, rest) =>
          ('\\' :: letter :: inside, rest)
  | c :: rest =>
      if c.toNat < 32 then none
      else (splitLiteral? rest).map fun (inside, rest) => (c :: inside, rest)

end HornLogic.Json
