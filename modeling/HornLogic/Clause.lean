import HornLogic.Predicate

/-!
# Clauses

A clause is a fact or a rule.  A rule states its head under the condition
that every goal of its body holds.
-/

namespace HornLogic

/-- A head that holds when every goal of the body does. -/
structure Rule where
  head : Predicate
  body : List Predicate
deriving DecidableEq, Inhabited

namespace Rule

def renamed (r : Rule) (generation : Nat) : Rule :=
  ⟨r.head.renamed generation, r.body.map (·.renamed generation)⟩

/-- The written form, as in `p(X) :- q(X), r(X).` -/
def text (r : Rule) : String :=
  r.head.text ++ " :- " ++ ", ".intercalate (r.body.map Predicate.text) ++ "."

end Rule

inductive Clause where
  | fact (p : Predicate)
  | rule (r : Rule)
deriving DecidableEq, Inhabited

namespace Clause

/-- What the clause states: the fact itself or the head of the rule. -/
def head : Clause → Predicate
  | .fact p => p
  | .rule r => r.head

def body : Clause → List Predicate
  | .fact _ => []
  | .rule r => r.body

def name (c : Clause) : String :=
  c.head.name

def isFact : Clause → Bool
  | .fact _ => true
  | .rule _ => false

/-- The written form with its final period. -/
def text : Clause → String
  | .fact p => p.text ++ "."
  | .rule r => r.text

end Clause

end HornLogic
