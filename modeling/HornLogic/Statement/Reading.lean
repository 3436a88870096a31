import HornLogic.Statement.Grammar
import HornLogic.Statement.Rejection
import HornLogic.Text.Line

/-!
# Reading statements

Reading a predicate, a query, a clause and a text with one clause on each
line.  White space around a statement does not count and neither does a
period at its end.  A text that is no statement is rejected with the first
flaw that explains it.
-/

namespace HornLogic.Statement

open Text (trim trimStart skipSpace allBlank dropLastIf)

def readTrimmed (skipEnd : List Char → List Char) (text : List Char) :
    Except Rejection Predicate :=
  if text = [] then
    .error .empty
  else
    match readWhole predicate skipEnd text with
    | .ok p => .ok p
    | .error rest => .error (.stoppedAt text rest)

def readPredicate (text : List Char) : Except Rejection Predicate :=
  readTrimmed skipPeriod (trim text)

/-- Read a predicate and nothing else, not even a period. -/
def readGoal (text : List Char) : Except Rejection Predicate :=
  readTrimmed skipSpace (trim text)

def dropQueryMark (text : List Char) : List Char :=
  match text with
  | '?' :: '-' :: rest => rest
  | _ => text

def readQuery (text : List Char) : Except Rejection Predicate :=
  readPredicate (dropQueryMark (trim text))

def explainGoal (text goal : List Char) : Rejection :=
  if goal.head? = some ',' then
    .rule (String.ofList text) .emptyGoal
  else
    match readGoal goal with
    | .error rejection => rejection
    | .ok _ => .rule (String.ofList text) .malformedBody

/-- A goal cut from the end of a rule, without the period of the rule. -/
def lastGoal (text : List Char) : List Char :=
  trim (dropLastIf '.' text)

/--
The flaw of a rule whose head and sign could be read, by the text behind the
sign.  Goals that can be read are skipped, and the first one that cannot is
reported.
-/
def explainBody (text body : List Char) : Rejection :=
  match bodyGoals body with
  | .ok (_, rest) =>
      match trimStart rest with
      | ',' :: behind =>
          match lastGoal (trim behind) with
          | [] => .rule (String.ofList text) .emptyGoal
          | goal => explainGoal text goal
      | _ => .rule (String.ofList text) .missingComma
  | .error _ =>
      match lastGoal (trimStart body) with
      | [] => .rule (String.ofList text) .emptyBody
      | goal => explainGoal text goal

/-- Why a trimmed text is no clause, reading having stopped at `rest`. -/
def explain (text rest : List Char) : Rejection :=
  match symbol [':', '-'] text with
  | .ok _ => .rule (String.ofList text) .missingHead
  | .error _ =>
      match ruleHead text with
      | .error _ => .stoppedAt text rest
      | .ok (_, body) => explainBody text body

def readClause (text : List Char) : Except Rejection Clause :=
  let text := trim text
  if text = [] then
    .error .empty
  else
    match readWhole clause skipPeriod text with
    | .ok c => .ok c
    | .error rest => .error (explain text rest)

/-- Read a line as a clause, noting its number if it is rejected. -/
def readNumbered (line : List Char) (number : Nat) : Except Rejection Clause :=
  match readClause line with
  | .ok c => .ok c
  | .error rejection => .error (rejection.onLine number)

/-- What each line that is not blank reads as; the first line is number one. -/
def readLines (text : List Char) : List (Except Rejection Clause) :=
  ((Text.lines text).zipIdx 1).filterMap fun (line, number) =>
    if allBlank line then none else some (readNumbered line number)

/-- All results, or the first failure. -/
def collect {ε α : Type} : List (Except ε α) → Except ε (List α)
  | [] => .ok []
  | .error e :: _ => .error e
  | .ok a :: rest => (collect rest).map (a :: ·)

def readKnowledge (text : List Char) : Except Rejection (List Clause) :=
  collect (readLines text)

end HornLogic.Statement

namespace HornLogic

def Predicate.read (text : String) : Except Statement.Rejection Predicate :=
  Statement.readPredicate text.toList

def Predicate.readQuery (text : String) : Except Statement.Rejection Predicate :=
  Statement.readQuery text.toList

def Clause.read (text : String) : Except Statement.Rejection Clause :=
  Statement.readClause text.toList

def Clause.readLines (text : String) : List (Except Statement.Rejection Clause) :=
  Statement.readLines text.toList

def Clause.readAll (text : String) : Except Statement.Rejection (List Clause) :=
  Statement.readKnowledge text.toList

end HornLogic
