/-!
# Numerals

Reading and writing of natural numbers in the bases two to sixteen.
-/

namespace HornLogic.Text

/-- The value of a digit; letters stand for ten to fifteen. -/
def digitValue (c : Char) : Nat :=
  if c.isDigit then c.toNat - '0'.toNat
  else if 'a' ≤ c ∧ c ≤ 'f' then c.toNat - 'a'.toNat + 10
  else if 'A' ≤ c ∧ c ≤ 'F' then c.toNat - 'A'.toNat + 10
  else 0

def isHexDigit (c : Char) : Bool :=
  c.isDigit || ('a' ≤ c && c ≤ 'f') || ('A' ≤ c && c ≤ 'F')

def isDigitOf (base : Nat) (c : Char) : Bool :=
  isHexDigit c && digitValue c < base

/-- The number a row of digits stands for, most significant digit first. -/
def ofDigits (base : Nat) (digits : List Char) : Nat :=
  digits.foldl (fun value c => value * base + digitValue c) 0

def natural? (text : List Char) : Option Nat :=
  if text ≠ [] ∧ text.all Char.isDigit then some (ofDigits 10 text) else none

/-- Read a decimal numeral below `2 ^ 64`, with an optional plus sign. -/
def word? (text : List Char) : Option UInt64 := do
  let digits := match text with
    | '+' :: digits => digits
    | digits => digits
  let value ← natural? digits
  if value < UInt64.size then some (UInt64.ofNat value) else none

def hexDigits (value : Nat) : List Char :=
  Nat.toDigits 16 value

def fourHexDigits (value : Nat) : List Char :=
  let digits := hexDigits value
  List.replicate (4 - digits.length) '0' ++ digits

/-- The character with a given code point; half of a surrogate pair is none. -/
def charOf? (code : Nat) : Option Char :=
  if code.isValidChar then some (Char.ofNat code) else none

end HornLogic.Text
