import HornLogic.KnowledgeBase
import HornLogic.Search.Basic

/-!
# Single-pass search

The search that proves each goal of a rule on its own, under the bindings of
the head alone.  A rule counts at most once, whatever the number of proofs of
its body, and the search for a body stops at the first goal without a proof.
-/

namespace HornLogic.Search.SinglePass

/-- Whether every goal has a proof; goals behind one without are not tried. -/
def allProved (solve : Predicate → Search (List Predicate)) :
    List Predicate → Search Bool
  | [] => pure true
  | goal :: rest => do
      let found ← solve goal
      if found.isEmpty then pure false else allProved solve rest

def useFact (query fact : Predicate) : Search (List Predicate) := do
  match ← attempt query fact with
  | none => pure []
  | some unifier => do
      record [fact]
      pure [unifier.apply query]

def useRule (solve : Predicate → Search (List Predicate)) (query : Predicate)
    (rule : Rule) : Search (List Predicate) := do
  match ← attempt query rule.head with
  | none => pure []
  | some unifier => do
      let proved ← under rule.head
        (allProved solve (rule.body.map unifier.apply))
      if proved then
        record [rule.head]
        pure [unifier.apply query]
      else
        pure []

def useClause (solve : Predicate → Search (List Predicate)) (query : Predicate) :
    Clause → Search (List Predicate)
  | .fact fact => useFact query fact
  | .rule rule => useRule solve query rule

/-- Answer one query at a given depth by every clause of its name. -/
def solve (kb : KnowledgeBase) (settings : SearchSettings) :
    Nat → Nat → Predicate → Search (List Predicate)
  | 0, _, _ => endless
  | fuel + 1, depth, query => do
      if ← enter settings depth then
        each (useClause (solve kb settings fuel (depth + 1)) query)
          (kb.named query.name)
      else
        pure []

end HornLogic.Search.SinglePass
