import HornLogic.Text.Blank

/-!
# Rejected statements

Why a text is not a statement.  A rejected predicate tells where reading
stopped, counted in bytes from the start of the text; a rejected rule names
its flaw; a line number tells where the statement stands in a longer text.
-/

namespace HornLogic.Statement

/-- What is wrong with a rule whose head and `:-` may still be in order. -/
inductive RuleFlaw where
  | missingHead
  | missingComma
  | emptyBody
  | emptyGoal
  | malformedBody
  | other (message : String)
deriving DecidableEq, Inhabited

namespace RuleFlaw

def message : RuleFlaw → String
  | .missingHead => "missing rule head"
  | .missingComma => "expected `,` between body goals"
  | .emptyBody => "empty rule body"
  | .emptyGoal => "empty goal in rule body"
  | .malformedBody => "malformed rule body"
  | .other message => message

end RuleFlaw

inductive Rejection where
  | empty
  | predicate (text : String) (position : Nat)
  | rule (text : String) (flaw : RuleFlaw)
  | atLine (line : Nat) (cause : Rejection)
deriving DecidableEq, Inhabited

namespace Rejection

/-- A text in which reading a predicate stopped at its tail `rest`. -/
def stoppedAt (text rest : List Char) : Rejection :=
  .predicate (String.ofList text) (Text.byteLength text - Text.byteLength rest)

def message : Rejection → String
  | .empty => "empty statement"
  | .predicate text _ => "invalid predicate format: " ++ text
  | .rule text flaw => "invalid rule `" ++ text ++ "`: " ++ flaw.message
  | .atLine line cause => "line " ++ toString line ++ ": " ++ cause.message

/-- Note the line of a rejection, in place of a line noted before. -/
def onLine (line : Nat) : Rejection → Rejection
  | .atLine _ cause => .atLine line cause
  | rejection => .atLine line rejection

def line? : Rejection → Option Nat
  | .atLine line _ => some line
  | _ => none

/-- The rejection without line numbers. -/
def root : Rejection → Rejection
  | .atLine _ cause => cause.root
  | rejection => rejection

def text? (rejection : Rejection) : Option String :=
  match rejection.root with
  | .predicate text _ => some text
  | .rule text _ => some text
  | _ => none

/-- Where reading stopped in that text, for a rejected predicate. -/
def position? (rejection : Rejection) : Option Nat :=
  match rejection.root with
  | .predicate _ position => some position
  | _ => none

end Rejection

end HornLogic.Statement
