import HornLogic.Text.Numeral

/-!
# String literals of TOML

A basic string stands between double quotes and knows escapes; a literal
string stands between single quotes and takes every character as it is.  With
three quotes on either side both may run over several lines.
-/

namespace HornLogic.Toml

open Text

/-- A function from a text to a value and the text behind it. -/
abbrev Reader (α : Type) := List Char → Option (α × List Char)

def prepend (c : Char) (result : Option (List Char × List Char)) :
    Option (List Char × List Char) :=
  result.map fun (inside, rest) => (c :: inside, rest)

def isLineSpace (c : Char) : Bool :=
  c == ' ' || c == '\t'

/-- Characters that may stand in comments and strings: no control but the tab. -/
def isPlain (c : Char) : Bool :=
  c == '\t' || (32 ≤ c.toNat && c.toNat ≠ 127)

def newline? : List Char → Option (List Char)
  | '\n' :: rest => some rest
  | '\r' :: '\n' :: rest => some rest
  | _ => none

def dropNewline (text : List Char) : List Char :=
  (newline? text).getD text

def hexChar (digits : Nat) : Reader Char := fun text =>
  let written := text.take digits
  if written.length = digits ∧ written.all isHexDigit then
    (charOf? (ofDigits 16 written)).map fun c => (c, text.drop digits)
  else none

def escaped : Reader Char
  | 'b' :: rest => some ('\x08', rest)
  | 't' :: rest => some ('\t', rest)
  | 'n' :: rest => some ('\n', rest)
  | 'f' :: rest => some ('\x0c', rest)
  | 'r' :: rest => some ('\r', rest)
  | '"' :: rest => some ('"', rest)
  | '\\' :: rest => some ('\\', rest)
  | 'u' :: rest => hexChar 4 rest
  | 'U' :: rest => hexChar 8 rest
  | _ => none

def basicString (text : List Char) : Option (List Char × List Char) :=
  match text with
  | [] => none
  | '"' :: rest => some ([], rest)
  | '\\' :: behind =>
      match escaped behind with
      | none => none
      | some (c, rest) =>
          if rest.length ≤ behind.length then prepend c (basicString rest) else none
  | c :: rest => if isPlain c then prepend c (basicString rest) else none
termination_by text.length

def literalString : List Char → Option (List Char × List Char)
  | [] => none
  | '\'' :: rest => some ([], rest)
  | c :: rest => if isPlain c then prepend c (literalString rest) else none

/--
The end of a string of several lines: of a row of three to five quotes the
last three close the string.
-/
def closing (mark : Char) : Reader (List Char) := fun text =>
  let quotes := text.takeWhile (· = mark)
  if 3 ≤ quotes.length ∧ quotes.length ≤ 5 then
    some (quotes.drop 3, text.drop quotes.length)
  else none

/--
White space in a string of several lines behind a backslash: the rest of the
line, and all that follows up to the next visible character.
-/
def lineContinuation? (text : List Char) : Option (List Char) :=
  (newline? (text.dropWhile isLineSpace)).map skipLines
where
  /-- Drop white space and line feeds. -/
  skipLines (text : List Char) : List Char :=
    match text with
    | [] => []
    | '\n' :: rest => skipLines rest
    | '\r' :: '\n' :: rest => skipLines rest
    | c :: rest => if isLineSpace c then skipLines rest else c :: rest

def basicLines (text : List Char) : Option (List Char × List Char) :=
  match text with
  | [] => none
  | '"' :: rest =>
      match closing '"' text with
      | some result => some result
      | none =>
          if (text.takeWhile (· = '"')).length < 3 then prepend '"' (basicLines rest)
          else none
  | '\\' :: behind =>
      match escaped behind with
      | some (c, rest) =>
          if rest.length ≤ behind.length then prepend c (basicLines rest) else none
      | none =>
          match lineContinuation? behind with
          | some rest =>
              if rest.length ≤ behind.length then basicLines rest else none
          | none => none
  | '\n' :: rest => prepend '\n' (basicLines rest)
  | '\r' :: '\n' :: rest => prepend '\n' (basicLines rest)
  | c :: rest => if isPlain c then prepend c (basicLines rest) else none
termination_by text.length

def literalLines (text : List Char) : Option (List Char × List Char) :=
  match text with
  | [] => none
  | '\'' :: rest =>
      match closing '\'' text with
      | some result => some result
      | none =>
          if (text.takeWhile (· = '\'')).length < 3 then
            prepend '\'' (literalLines rest)
          else none
  | '\n' :: rest => prepend '\n' (literalLines rest)
  | '\r' :: '\n' :: rest => prepend '\n' (literalLines rest)
  | c :: rest => if isPlain c then prepend c (literalLines rest) else none
termination_by text.length

def lineString : Reader String
  | '"' :: rest => (basicString rest).map fun (s, rest) => (String.ofList s, rest)
  | '\'' :: rest => (literalString rest).map fun (s, rest) => (String.ofList s, rest)
  | _ => none

def string : Reader String
  | '"' :: '"' :: '"' :: rest =>
      (basicLines (dropNewline rest)).map fun (s, rest) => (String.ofList s, rest)
  | '\'' :: '\'' :: '\'' :: rest =>
      (literalLines (dropNewline rest)).map fun (s, rest) => (String.ofList s, rest)
  | text => lineString text

end HornLogic.Toml
