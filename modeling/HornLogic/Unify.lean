import HornLogic.Substitution

/-!
# Unification

Unification is shallow: the arguments of two predicates are equated pair by
pair from left to right, without looking at earlier bindings.  A variable that
stands in several pairs keeps the last term it was equated with, so the
substitution may forget equations but never adds one.
-/

namespace HornLogic

namespace Substitution

/--
Equate two terms: a variable on the left is bound, else one on the right, and
two constants have to be equal.
-/
def equate (s : Substitution) : Term → Term → Option Substitution
  | .var v, term => some (s.bind v term)
  | .const a, .var v => some (s.bind v (.const a))
  | .const a, .const b => if a = b then some s else none

def equateAll (s : Substitution) : List (Term × Term) → Option Substitution
  | [] => some s
  | (a, b) :: rest => (s.equate a b).bind fun s => s.equateAll rest

end Substitution

namespace Predicate

/--
Unify two predicates.  This fails when the names or the arities differ, or
when two different constants face each other.
-/
def unify (p q : Predicate) : Option Substitution :=
  if p.name = q.name ∧ p.arity = q.arity then
    Substitution.empty.equateAll (p.args.zip q.args)
  else
    none

end Predicate

end HornLogic
