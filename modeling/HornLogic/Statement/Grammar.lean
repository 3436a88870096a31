import HornLogic.Clause
import HornLogic.Text.Blank

/-!
# The grammar of statements

Readers for the parts of a statement:

    predicate = identifier "(" [ identifier { "," identifier } ] ")"
    rule      = predicate ":-" predicate { "," predicate }
    statement = ( rule | predicate ) [ "." ]

A reader takes a text to a value and the text behind it, or stops with the
text in front of which it could not go on.  Space may stand before every
token.  A list ends in front of a comma that no further item follows.
-/

namespace HornLogic.Statement

open Text (skipSpace)

/-- A function from a text to a value and the text behind it. -/
abbrev Reader (α : Type) :=
  List Char → Except (List Char) (α × List Char)

def isWordChar (c : Char) : Bool :=
  c.isAlphanum || c == '_'

def identifier : Reader String := fun text =>
  let text := skipSpace text
  match text.takeWhile isWordChar with
  | [] => .error text
  | word => .ok (String.ofList word, text.dropWhile isWordChar)

def symbol (written : List Char) : Reader Unit := fun text =>
  let text := skipSpace text
  match written.isPrefixOf? text with
  | none => .error text
  | some rest => .ok ((), rest)

def term : Reader Term := fun text => do
  let (word, rest) ← identifier text
  return (Term.ofToken word, rest)

/-- Read further items, each after a comma, as many as there are. -/
def moreItems {α : Type} (item : Reader α) (text : List Char) : List α × List Char :=
  match symbol [','] text with
  | .error _ => ([], text)
  | .ok ((), afterComma) =>
      match item afterComma with
      | .error _ => ([], text)
      | .ok (value, rest) =>
          if rest.length < text.length then
            let (values, rest) := moreItems item rest
            (value :: values, rest)
          else
            ([value], rest)
termination_by text.length

def items {α : Type} (item : Reader α) : Reader (List α) := fun text => do
  let (value, rest) ← item text
  let (values, rest) := moreItems item rest
  return (value :: values, rest)

/-- Read the arguments between the parentheses; there may be none. -/
def arguments (text : List Char) : List Term × List Char :=
  match items term text with
  | .ok result => result
  | .error _ => ([], text)

def predicate : Reader Predicate := fun text => do
  let (name, text) ← identifier text
  let ((), text) ← symbol ['('] text
  let (args, text) := arguments text
  let ((), text) ← symbol [')'] text
  return (⟨name, args⟩, text)

def ruleHead : Reader Predicate := fun text => do
  let (head, text) ← predicate text
  let ((), text) ← symbol [':', '-'] text
  return (head, text)

def bodyGoals : Reader (List Predicate) :=
  items predicate

def rule : Reader Clause := fun text => do
  let (head, text) ← ruleHead text
  let (body, text) ← bodyGoals text
  return (.rule ⟨head, body⟩, text)

def fact : Reader Clause := fun text => do
  let (p, text) ← predicate text
  return (.fact p, text)

/-- Read a rule, or else a fact. -/
def clause : Reader Clause := fun text =>
  match rule text with
  | .ok result => .ok result
  | .error _ => fact text

def skipPeriod (text : List Char) : List Char :=
  match skipSpace text with
  | '.' :: rest => skipSpace rest
  | rest => rest

/--
Use a reader on a whole text.  Of what it leaves behind, `skipEnd` drops what
may end a text; then nothing may be left.
-/
def readWhole {α : Type} (reader : Reader α) (skipEnd : List Char → List Char)
    (text : List Char) : Except (List Char) α := do
  let (value, rest) ← reader text
  match skipEnd rest with
  | [] => return value
  | left => throw left

end HornLogic.Statement
