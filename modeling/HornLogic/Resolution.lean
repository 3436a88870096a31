import HornLogic.Json
import HornLogic.KnowledgeBase
import HornLogic.Search.Derivation
import HornLogic.Search.Stats

/-!
# Resolutions

The outcome of a query: its solutions in search order, the derivations in the
order in which they were completed, and the statistics of the search.  A
resolution is written as plain text or as one line of JSON.
-/

namespace HornLogic

/-- A predicate in JSON; a term is given by its name. -/
def Predicate.json (p : Predicate) : Json :=
  .ofMembers [("name", .ofString p.name),
    ("args", .array (p.args.map fun arg => .ofString arg.name))]

def Clause.json : Clause → Json
  | .fact p => .ofMembers [("type", .ofString "fact"), ("predicate", p.json)]
  | .rule r =>
      .ofMembers [("type", .ofString "rule"), ("head", r.head.json),
        ("body", .array (r.body.map Predicate.json))]

def Derivation.json (derivation : Derivation) : Json :=
  .array (derivation.map Predicate.json)

def Stats.json (stats : Stats) : Json :=
  .ofMembers [
    ("goals_attempted", .ofNat stats.goals),
    ("unifications_attempted", .ofNat stats.attempted),
    ("unifications_succeeded", .ofNat stats.succeeded),
    ("derivations", .ofNat stats.derivations),
    ("solutions", .ofNat stats.solutions),
    ("depth_cutoffs", .ofNat stats.cutoffs),
    ("max_depth_reached", .ofNat stats.deepest)]

structure Resolution where
  query : Predicate
  solutions : List Predicate
  derivations : List Derivation
  stats : Stats
deriving DecidableEq, Inhabited

namespace Resolution

def isSuccess (r : Resolution) : Bool :=
  !r.solutions.isEmpty

/-- The solutions, one to a line, without a line feed at the end. -/
def solutionText (r : Resolution) : String :=
  match r.solutions with
  | [] => "No solution found."
  | solutions => "Results:" ++ String.join (solutions.map fun p => "\n" ++ p.text)

/-- One derivation as a numbered tree. -/
def treeText (number : Nat) (derivation : Derivation) : String :=
  "Derivation " ++ toString number ++ ":\nQuery\n" ++
    String.join ((derivation.treeLines 0).map (· ++ "\n"))

def traceText (r : Resolution) : String :=
  String.join ((r.derivations.zipIdx 1).map fun (derivation, number) =>
    treeText number derivation)

/-- The report in plain text, with the derivations if they are wanted. -/
def report (r : Resolution) (trace : Bool) : String :=
  r.solutionText ++ "\n" ++
    if trace && !r.derivations.isEmpty then "\n" ++ r.traceText else ""

def json (r : Resolution) : Json :=
  .ofMembers [
    ("query", r.query.json),
    ("solutions", .array (r.solutions.map Predicate.json)),
    ("derivations", .array (r.derivations.map Derivation.json)),
    ("stats", r.stats.json)]

end Resolution

end HornLogic
