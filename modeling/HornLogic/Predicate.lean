import HornLogic.Term

/-!
# Predicates

A predicate is a name applied to a list of terms.  It serves as a fact, as
the head or a goal of a rule, as a query and as an answer.
-/

namespace HornLogic

/-- A name applied to terms. -/
structure Predicate where
  name : String
  args : List Term
deriving DecidableEq, Inhabited

namespace Predicate

def arity (p : Predicate) : Nat :=
  p.args.length

def isGround (p : Predicate) : Bool :=
  p.args.all fun arg => !arg.isVar

/-- The variables among some terms, in order and each one once. -/
def varsOf : List Term → List Variable
  | [] => []
  | .const _ :: rest => varsOf rest
  | .var v :: rest => v :: (varsOf rest).filter (· ≠ v)

def vars (p : Predicate) : List Variable :=
  varsOf p.args

def renamed (p : Predicate) (generation : Nat) : Predicate :=
  ⟨p.name, p.args.map (Term.renamed generation)⟩

/-- The written form, as in `parent(john, X)`. -/
def text (p : Predicate) : String :=
  p.name ++ "(" ++ ", ".intercalate (p.args.map Term.name) ++ ")"

end Predicate

end HornLogic
