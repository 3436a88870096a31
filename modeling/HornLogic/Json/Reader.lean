import HornLogic.Json
import HornLogic.Text.Blank

/-!
# Reading JSON

`Json.read?` accepts exactly one value with white space around it.  The
readers below take a text to a value and the text behind it; `steps` bounds
the number of nested or repeated values, and every such step uses up at least
half a character.
-/

namespace HornLogic.Json

open Text (skipSpace)

def splitDigits? (text : List Char) : Option (List Char × List Char) :=
  match text.takeWhile Char.isDigit with
  | [] => none
  | digits => some (digits, text.dropWhile Char.isDigit)

/-- Split off the whole part of a numeral, which has no leading zero. -/
def splitWhole? : List Char → Option (List Char × List Char)
  | '0' :: rest => some (['0'], rest)
  | text => splitDigits? text

def splitFraction? : List Char → Option (List Char × List Char)
  | '.' :: rest => do
      let (digits, rest) ← splitDigits? rest
      some ('.' :: digits, rest)
  | text => some ([], text)

def splitExponent? : List Char → Option (List Char × List Char)
  | mark :: rest =>
      if mark = 'e' ∨ mark = 'E' then
        match rest with
        | sign :: tail =>
            if sign = '+' ∨ sign = '-' then do
              let (digits, rest) ← splitDigits? tail
              some (mark :: sign :: digits, rest)
            else do
              let (digits, rest) ← splitDigits? rest
              some (mark :: digits, rest)
        | [] => none
      else some ([], mark :: rest)
  | [] => some ([], [])

def splitUnsigned? (text : List Char) : Option (List Char × List Char) := do
  let (whole, rest) ← splitWhole? text
  let (fraction, rest) ← splitFraction? rest
  let (exponent, rest) ← splitExponent? rest
  some (whole ++ fraction ++ exponent, rest)

def splitNumeral? : List Char → Option (List Char × List Char)
  | '-' :: rest => do
      let (written, rest) ← splitUnsigned? rest
      some ('-' :: written, rest)
  | text => splitUnsigned? text

/-- Read a value that is not nested: a word, a numeral or a literal. -/
def readScalar? (text : List Char) : Option (Json × List Char) :=
  match text with
  | '"' :: rest => do
      let (inside, rest) ← splitLiteral? rest
      some (.literal inside, rest)
  | 'n' :: 'u' :: 'l' :: 'l' :: rest => some (.null, rest)
  | 't' :: 'r' :: 'u' :: 'e' :: rest => some (.bool true, rest)
  | 'f' :: 'a' :: 'l' :: 's' :: 'e' :: rest => some (.bool false, rest)
  | text => do
      let (written, rest) ← splitNumeral? text
      some (.numeral written, rest)

def readKey? (text : List Char) : Option (List Char × List Char) :=
  match skipSpace text with
  | '"' :: rest => do
      let (key, rest) ← splitLiteral? rest
      match skipSpace rest with
      | ':' :: rest => some (key, rest)
      | _ => none
  | _ => none

mutual

/-- Read one value, after white space. -/
def readValue? : Nat → List Char → Option (Json × List Char)
  | 0, _ => none
  | steps + 1, text =>
      match skipSpace text with
      | '[' :: rest =>
          match skipSpace rest with
          | ']' :: rest => some (.array [], rest)
          | _ => do
              let (items, rest) ← readItems? steps rest
              some (.array items, rest)
      | '\x7b' :: rest =>
          match skipSpace rest with
          | '\x7d' :: rest => some (.object [], rest)
          | _ => do
              let (members, rest) ← readMembers? steps rest
              some (.object members, rest)
      | scalar => readScalar? scalar

def readItems? : Nat → List Char → Option (List Json × List Char)
  | 0, _ => none
  | steps + 1, text => do
      let (item, rest) ← readValue? steps text
      match skipSpace rest with
      | ',' :: rest => do
          let (items, rest) ← readItems? steps rest
          some (item :: items, rest)
      | ']' :: rest => some ([item], rest)
      | _ => none

def readMembers? : Nat → List Char → Option (List (List Char × Json) × List Char)
  | 0, _ => none
  | steps + 1, text => do
      let (key, rest) ← readKey? text
      let (value, rest) ← readValue? steps rest
      match skipSpace rest with
      | ',' :: rest => do
          let (members, rest) ← readMembers? steps rest
          some ((key, value) :: members, rest)
      | '\x7d' :: rest => some ([(key, value)], rest)
      | _ => none

end

/-- Read a text that holds one value and nothing else. -/
def read? (text : String) : Option Json :=
  let symbols := text.toList
  match readValue? (2 * symbols.length + 2) symbols with
  | some (value, rest) => if skipSpace rest = [] then some value else none
  | none => none

end HornLogic.Json
