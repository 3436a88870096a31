import HornLogic.Toml.Moment
import HornLogic.Toml.Number

/-!
# Reading TOML values

Readers for keys and values.  Arrays and inline tables may be nested up to a
fixed number of levels, and a dotted key may have as many parts.
-/

namespace HornLogic.Toml

/-- The number of levels of nesting, and of parts of a key, that is too great. -/
def levelLimit : Nat := 80

def skipBlanks (text : List Char) : List Char :=
  text.dropWhile isLineSpace

def isKeyChar (c : Char) : Bool :=
  c.isAlphanum || c == '_' || c == '-'

def keyPart : Reader String := fun text =>
  match text with
  | '"' :: _ | '\'' :: _ => lineString text
  | _ =>
      match text.takeWhile isKeyChar with
      | [] => none
      | word => some (String.ofList word, text.dropWhile isKeyChar)

def moreKeyParts (text : List Char) : Option (List String × List Char) :=
  match text with
  | '.' :: behind =>
      match keyPart (skipBlanks behind) with
      | none => none
      | some (part, rest) =>
          if (skipBlanks rest).length ≤ behind.length then
            (moreKeyParts (skipBlanks rest)).map fun (parts, rest) => (part :: parts, rest)
          else none
  | _ => some ([], text)
termination_by text.length

/-- A key: the names of the tables on the way and its last part. -/
structure Key where
  path : List String
  last : String

def Key.ofParts (first : String) : List String → Key
  | [] => ⟨[], first⟩
  | second :: rest =>
      let key := Key.ofParts second rest
      ⟨first :: key.path, key.last⟩

def key : Reader Key := fun text => do
  let (first, rest) ← keyPart (skipBlanks text)
  let (parts, rest) ← moreKeyParts (skipBlanks rest)
  if parts.length + 1 < levelLimit then some (.ofParts first parts, rest) else none

/-- The text behind a comment, whose line feed stays. -/
def afterComment (text : List Char) : List Char :=
  match text with
  | '#' :: rest => rest.dropWhile isPlain
  | _ => text

/-- Drop white space, line feeds and comments; a comment ends with its line. -/
def skipFiller (text : List Char) : List Char :=
  match newline? (afterComment (skipBlanks text)) with
  | none => skipBlanks text
  | some rest =>
      if rest.length < text.length then skipFiller rest else skipBlanks text
termination_by text.length

/-- Read the items of an array behind its bracket, or behind a comma. -/
def arrayItems (item : Reader Value) (text : List Char) :
    Option (List Value × List Char) :=
  match skipFiller text with
  | ']' :: rest => some ([], rest)
  | start =>
      match item start with
      | none => none
      | some (value, rest) =>
          match skipFiller rest with
          | ',' :: rest =>
              if rest.length < text.length then
                (arrayItems item rest).map fun (values, rest) => (value :: values, rest)
              else none
          | ']' :: rest => some ([value], rest)
          | _ => none
termination_by text.length

def keyValue (item : Reader Value) : Reader (Key × Value) := fun text => do
  let (key, rest) ← key text
  let rest ← mark '=' rest
  let (value, rest) ← item (skipBlanks rest)
  some ((key, value), rest)

def inlineMembers (item : Reader Value) (text : List Char) :
    Option (List (Key × Value) × List Char) :=
  match keyValue item text with
  | none => none
  | some (pair, rest) =>
      match skipBlanks rest with
      | ',' :: rest =>
          if rest.length < text.length then
            (inlineMembers item rest).map fun (pairs, rest) => (pair :: pairs, rest)
          else none
      | '\x7d' :: rest => some ([pair], rest)
      | _ => none
termination_by text.length

def tableOf (entries : Entries) : List (Key × Value) → Option Entries
  | [] => some entries
  | (key, value) :: rest => do
      let entries ← entries.assign key.path key.last value
      tableOf entries rest

def inlineTable (item : Reader Value) : Reader Value := fun text =>
  match skipBlanks text with
  | '\x7d' :: rest => some (.table [], rest)
  | _ => do
      let (pairs, rest) ← inlineMembers item text
      let entries ← tableOf [] pairs
      some (.table (entryValues entries), rest)

/-- Read a value that holds no other values. -/
def scalar : Reader Value := fun text =>
  match text with
  | '"' :: _ | '\'' :: _ => (string text).map fun (s, rest) => (.string s, rest)
  | 't' :: 'r' :: 'u' :: 'e' :: rest => some (.bool true, rest)
  | 'f' :: 'a' :: 'l' :: 's' :: 'e' :: rest => some (.bool false, rest)
  | _ => (moment text).or (number text)

/-- Read a value with at most some levels of nesting. -/
def value : Nat → Reader Value
  | 0, text => scalar text
  | levels + 1, text =>
      match text with
      | '[' :: rest =>
          (arrayItems (value levels) rest).map fun (items, rest) => (.array items, rest)
      | '\x7b' :: rest => inlineTable (value levels) rest
      | _ => scalar text

end HornLogic.Toml
