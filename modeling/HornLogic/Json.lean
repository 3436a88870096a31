import HornLogic.Json.Literal

/-!
# JSON

A JSON tree keeps numerals and string literals as they are written, so that
reading a text loses nothing and what is never looked at is never decoded.
`render` writes a tree without any white space.
-/

namespace HornLogic

/-- A JSON value, with numerals and string literals in their written form. -/
inductive Json where
  | null
  | bool (value : Bool)
  | numeral (written : List Char)
  | literal (inside : List Char)
  | array (items : List Json)
  | object (members : List (List Char × Json))
deriving Inhabited

namespace Json

def ofString (text : String) : Json :=
  .literal (escape text.toList)

def ofNat (n : Nat) : Json :=
  .numeral (Nat.toDigits 10 n)

def ofMembers (members : List (String × Json)) : Json :=
  .object (members.map fun member => (escape member.1.toList, member.2))

def ofTexts (entries : List (String × String)) : Json :=
  .ofMembers (entries.map fun entry => (entry.1, ofString entry.2))

def string? : Json → Option String
  | .literal inside => (unescape? inside).map String.ofList
  | _ => none

/-- The value of a numeral that is a plain row of digits. -/
def nat? : Json → Option Nat
  | .numeral written => Text.natural? written
  | _ => none

def quote (inside : List Char) : List Char :=
  '"' :: inside ++ ['"']

mutual

/-- The characters of a value, without white space. -/
def chars : Json → List Char
  | .null => "null".toList
  | .bool true => "true".toList
  | .bool false => "false".toList
  | .numeral written => written
  | .literal inside => quote inside
  | .array items => '[' :: itemChars items ++ [']']
  | .object members => '\x7b' :: memberChars members ++ ['\x7d']

def itemChars : List Json → List Char
  | [] => []
  | item :: rest => chars item ++ moreItemChars rest

/-- The characters of further items, each after a comma. -/
def moreItemChars : List Json → List Char
  | [] => []
  | item :: rest => ',' :: chars item ++ moreItemChars rest

def memberChars : List (List Char × Json) → List Char
  | [] => []
  | (key, value) :: rest =>
      quote key ++ ':' :: chars value ++ moreMemberChars rest

/-- The characters of further members, each after a comma. -/
def moreMemberChars : List (List Char × Json) → List Char
  | [] => []
  | (key, value) :: rest =>
      ',' :: quote key ++ ':' :: chars value ++ moreMemberChars rest

end

def render (value : Json) : String :=
  String.ofList value.chars

end Json

end HornLogic
