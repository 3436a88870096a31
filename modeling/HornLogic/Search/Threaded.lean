import HornLogic.KnowledgeBase
import HornLogic.Search.Basic

/-!
# Threaded search

The search that carries bindings from goal to goal.  A clause is renamed
apart before it is used; the goals of a rule are proved from left to right,
each under every substitution that proves the goals before it.

`fuel` bounds the number of nested goals.  A search that would need more is
taken to have no end.
-/

namespace HornLogic.Search.Threaded

/-- Prove goals from left to right by a search for single goals. -/
def conjunction (solve : Predicate → Substitution → Search (List Substitution)) :
    List Predicate → Substitution → Search (List Substitution)
  | [], bindings => pure [bindings]
  | goal :: rest, bindings => do
      let extended ← solve goal bindings
      each (conjunction solve rest) extended

/-- The form of a fact to unify with: one with variables is renamed apart. -/
def freshFact (fact : Predicate) : Search Predicate :=
  if fact.isGround then
    pure fact
  else do
    let generation ← freshGeneration
    pure (fact.renamed generation)

def useFact (goal : Predicate) (bindings : Substitution) (fact : Predicate) :
    Search (List Substitution) := do
  let fresh ← freshFact fact
  match ← attempt goal fresh with
  | none => pure []
  | some unifier => do
      record [fact]
      pure [bindings.merged unifier]

/-- Record one derivation of a rule's head for each proof of its body. -/
def recordEach (head : Predicate) : List Substitution → Search Unit
  | [] => pure ()
  | _ :: rest => do
      record [head]
      recordEach head rest

def useRule (solve : Predicate → Substitution → Search (List Substitution))
    (goal : Predicate) (bindings : Substitution) (rule : Rule) :
    Search (List Substitution) := do
  let generation ← freshGeneration
  let fresh := rule.renamed generation
  match ← attempt goal fresh.head with
  | none => pure []
  | some unifier => do
      let proofs ← under rule.head
        (conjunction solve fresh.body (bindings.merged unifier))
      recordEach rule.head proofs
      pure proofs

def useClause (solve : Predicate → Substitution → Search (List Substitution))
    (goal : Predicate) (bindings : Substitution) :
    Clause → Search (List Substitution)
  | .fact fact => useFact goal bindings fact
  | .rule rule => useRule solve goal bindings rule

/-- Prove one goal at a given depth by every clause of its name. -/
def solve (kb : KnowledgeBase) (settings : SearchSettings) :
    Nat → Nat → Predicate → Substitution → Search (List Substitution)
  | 0, _, _, _ => endless
  | fuel + 1, depth, goal, bindings => do
      let goal := bindings.resolve goal
      if ← enter settings depth then
        each (useClause (solve kb settings fuel (depth + 1)) goal bindings)
          (kb.named goal.name)
      else
        pure []

end HornLogic.Search.Threaded
