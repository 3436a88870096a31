import HornLogic.Resolution
import HornLogic.Search.SinglePass
import HornLogic.Search.Threaded

/-!
# Resolvers

A resolver answers queries over a fixed knowledge base.  From query to query
it keeps the generation drawn last and the log of everything it did.
-/

namespace HornLogic

/--
The number of nested goals after which a search is taken to have no end.  It
exceeds every depth limit, and every chain of clauses that does not come back
to a name it has passed.
-/
def KnowledgeBase.horizon (kb : KnowledgeBase) : Nat :=
  UInt64.size + kb.size + 1

structure Resolver where
  kb : KnowledgeBase
  settings : SearchSettings := {}
  generation : Nat := 0
  log : SearchLog := {}
deriving Inhabited

namespace Resolver

def search (kb : KnowledgeBase) (settings : SearchSettings) (query : Predicate) :
    Search (List Predicate) :=
  match settings.conjunction with
  | .threaded => do
      let proofs ← Search.Threaded.solve kb settings kb.horizon 0 query .empty
      pure (proofs.map (·.answer query))
  | .singlePass => Search.SinglePass.solve kb settings kb.horizon 0 query

/--
Answer a query that was reached by a path of clauses.  The result is none if
the search has no end.
-/
def resolve (r : Resolver) (query : Predicate) (path : Derivation) :
    Option (List Predicate × Resolver) :=
  (search r.kb r.settings query r.generation).map fun run =>
    (run.value, { r with
      generation := run.generation
      log := r.log ++ run.log.under path })

/-- Answer a query from the start and report everything done so far. -/
def answer (r : Resolver) (query : Predicate) : Option Resolution :=
  (r.resolve query []).map fun (solutions, after) =>
    { query := query
      solutions := solutions
      derivations := after.log.derivations
      stats := { after.log.stats with solutions := solutions.length } }

end Resolver

end HornLogic
