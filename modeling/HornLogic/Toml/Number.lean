import HornLogic.Toml.Tree
import HornLogic.Toml.Literal

/-!
# Numbers of TOML

Integers of signed 64 bits in four bases and floats.  Underscores may stand
between digits.  The value of a float is of no use here and is not computed,
but a positive one that is too great for a double is refused.
-/

namespace HornLogic.Toml

open Text

/-- Read further digits, with an underscore in front of each or not. -/
def moreDigits (isDigit : Char → Bool) (text : List Char) : List Char × List Char :=
  match text with
  | '_' :: c :: rest =>
      if isDigit c then
        let (digits, rest) := moreDigits isDigit rest
        (c :: digits, rest)
      else ([], text)
  | c :: rest =>
      if isDigit c then
        let (digits, rest) := moreDigits isDigit rest
        (c :: digits, rest)
      else ([], text)
  | [] => ([], [])

def digits (isDigit : Char → Bool) : Reader (List Char)
  | c :: rest =>
      if isDigit c then
        let (digits, rest) := moreDigits isDigit rest
        some (c :: digits, rest)
      else none
  | [] => none

/-- Read the digits of a decimal number, which has no leading zero. -/
def wholeDigits : Reader (List Char)
  | '0' :: rest => some (['0'], rest)
  | text => digits Char.isDigit text

/-- Read an optional sign; true stands for minus. -/
def sign : List Char → Bool × List Char
  | '+' :: rest => (false, rest)
  | '-' :: rest => (true, rest)
  | text => (false, text)

def fraction : Reader (List Char)
  | '.' :: rest => digits Char.isDigit rest
  | text => some ([], text)

/--
The size of an exponent.  Once it has reached `2 ^ 16` further digits do not
count.
-/
def exponentSize (written : List Char) : Nat :=
  written.foldl (fun size c => if size < 65536 then size * 10 + digitValue c else size) 0

def exponent : Reader (Option Int)
  | mark :: rest =>
      if mark = 'e' ∨ mark = 'E' then
        let (negative, rest) := sign rest
        (digits Char.isDigit rest).map fun (written, rest) =>
          let size : Int := exponentSize written
          (some (if negative then -size else size), rest)
      else some (none, mark :: rest)
  | [] => some (none, [])

/--
Whether `mantissa * 10 ^ scale` rounds to no finite double.  The number of
digits decides but for the borderline, where the numbers are small enough to
compute.
-/
def exceedsDoubles (mantissa : List Char) (scale : Int) : Bool :=
  let value := ofDigits 10 mantissa
  let magnitude : Int := (Nat.toDigits 10 value).length + scale
  let bound := Nat.pow 2 1024 - Nat.pow 2 970
  if value = 0 ∨ magnitude < 300 then false
  else if magnitude > 320 then true
  else if 0 ≤ scale then bound ≤ value * Nat.pow 10 scale.toNat
  else bound * Nat.pow 10 (-scale).toNat ≤ value

def isInteger (value : Int) : Bool :=
  Int64.minValue.toInt ≤ value && value ≤ Int64.maxValue.toInt

def prefixedInteger (base : Nat) : Reader Value := fun text => do
  let (written, rest) ← digits (isDigitOf base) text
  let value : Int := ofDigits base written
  if isInteger value then some (.integer value, rest) else none

/-- Read a decimal integer or a float, behind its sign. -/
def decimal (negative : Bool) : Reader Value := fun text => do
  let (whole, rest) ← wholeDigits text
  let (part, rest) ← fraction rest
  let (power, rest) ← exponent rest
  if part = [] ∧ power = none then
    let size : Int := ofDigits 10 whole
    let value := if negative then -size else size
    if isInteger value then some (.integer value, rest) else none
  else if !negative && exceedsDoubles (whole ++ part) (power.getD 0 - part.length) then
    none
  else
    some (.float (text.take (text.length - rest.length)), rest)

def number : Reader Value := fun text =>
  match text with
  | '0' :: 'x' :: rest => prefixedInteger 16 rest
  | '0' :: 'o' :: rest => prefixedInteger 8 rest
  | '0' :: 'b' :: rest => prefixedInteger 2 rest
  | _ =>
      let (negative, unsigned) := sign text
      match unsigned with
      | 'i' :: 'n' :: 'f' :: rest => some (.float ['i', 'n', 'f'], rest)
      | 'n' :: 'a' :: 'n' :: rest => some (.float ['n', 'a', 'n'], rest)
      | _ => decimal negative unsigned

end HornLogic.Toml
