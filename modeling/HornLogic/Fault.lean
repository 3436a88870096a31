import HornLogic.Fault.Details
import HornLogic.Statement.Rejection

/-!
# Faults

What an engine or a session reports when it cannot do what it was asked to:
a code, a message, and optionally a context and a hint.  Codes from 1000 to
1999 stand for texts that do not match the grammar, codes from 9000 on for
failures of input, output or encoding.
-/

namespace HornLogic

namespace Fault

inductive Code where
  | parseError
  | invalidPredicate
  | invalidRule
  | emptyStatement
  | internalError
  | ioError
deriving DecidableEq, Inhabited

namespace Code

def number : Code → Nat
  | .parseError => 1000
  | .invalidPredicate => 1001
  | .invalidRule => 1002
  | .emptyStatement => 1003
  | .internalError => 9000
  | .ioError => 9001

def description : Code → String
  | .parseError => "Parse error"
  | .invalidPredicate => "Invalid predicate format"
  | .invalidRule => "Invalid rule"
  | .emptyStatement => "Empty statement"
  | .internalError => "Internal error"
  | .ioError => "I/O error"

/-- The name of a code in records. -/
def name : Code → String
  | .parseError => "PARSE_ERROR"
  | .invalidPredicate => "INVALID_PREDICATE"
  | .invalidRule => "INVALID_RULE"
  | .emptyStatement => "EMPTY_STATEMENT"
  | .internalError => "INTERNAL_ERROR"
  | .ioError => "IO_ERROR"

def all : List Code :=
  [.parseError, .invalidPredicate, .invalidRule, .emptyStatement, .internalError,
    .ioError]

def ofName? (name : String) : Option Code :=
  all.find? fun code => code.name = name

/-- Whether a code stands for a text that does not match the grammar. -/
def isParseError (code : Code) : Bool :=
  1000 ≤ code.number && code.number < 2000

end Code

structure Context where
  fields : Details := .empty
  location : Option String := none
deriving DecidableEq, Inhabited

end Fault

structure Fault where
  code : Fault.Code
  message : String
  context : Option Fault.Context := none
  hint : Option String := none
deriving DecidableEq, Inhabited

namespace Fault

def contextOrEmpty (fault : Fault) : Context :=
  fault.context.getD {}

def withField (fault : Fault) (key value : String) : Fault :=
  let old := fault.contextOrEmpty
  let context : Context := { old with fields := old.fields.insert key value }
  { fault with context := some context }

def foundAt (fault : Fault) (location : String) : Fault :=
  let context : Context := { fault.contextOrEmpty with location := some location }
  { fault with context := some context }

def withHint (fault : Fault) (hint : String) : Fault :=
  { fault with hint := some hint }

def fields (fault : Fault) : Details :=
  fault.contextOrEmpty.fields

def location? (fault : Fault) : Option String :=
  fault.contextOrEmpty.location

/-- The fault in words, with its number, location and hint. -/
def text (fault : Fault) : String :=
  "[" ++ toString fault.code.number ++ "] " ++ fault.message ++
    (match fault.location? with
      | some location => " at " ++ location
      | none => "") ++
    (match fault.hint with
      | some hint => "\nHint: " ++ hint
      | none => "")

def codeOf (rejection : Statement.Rejection) : Code :=
  match rejection.root with
  | .predicate .. => .invalidPredicate
  | .rule .. => .invalidRule
  | .empty => .emptyStatement
  | .atLine .. => .parseError

def statementHint : String :=
  "expected `name(arg, ...)` or `head(args) :- goal(args), ...`"

/-- Add a field for a value that may be missing. -/
def withField? (fault : Fault) (key : String) : Option String → Fault
  | some value => fault.withField key value
  | none => fault

/-- The fault of a rejected statement, with its line, text and position. -/
def ofRejection (rejection : Statement.Rejection) : Fault :=
  ({ code := codeOf rejection, message := rejection.message : Fault}
    |>.withField? "line" (rejection.line?.map toString)
    |>.withField? "text" rejection.text?
    |>.withField? "position" (rejection.position?.map toString)
    |>.withHint statementHint)

def io (message : String) : Fault :=
  { code := .ioError, message := message }

def json (message : String) : Fault :=
  { code := .internalError, message := message : Fault}.withField "format" "JSON"

end Fault

end HornLogic
