import HornLogic.Predicate

/-!
# Derivations

A derivation is the chain of clause heads, as they stand in the knowledge
base, that led from a query to one successful use of a clause.
-/

namespace HornLogic

/-- Clause heads from the query's clause to the clause last used. -/
abbrev Derivation := List Predicate

namespace Derivation

/-- The written form, as in `a(X) -> b(X)`. -/
def text (derivation : Derivation) : String :=
  " -> ".intercalate (derivation.map Predicate.text)

def treeLines : Nat → Derivation → List String
  | _, [] => []
  | depth, step :: rest =>
      (String.join (List.replicate depth "   ") ++ "└─ " ++ step.text) ::
        treeLines (depth + 1) rest

end Derivation

end HornLogic
