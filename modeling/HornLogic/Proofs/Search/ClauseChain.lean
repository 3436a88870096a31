import HornLogic.Proofs.Plain
import HornLogic.Proofs.Search.Logging
import Mathlib.Data.List.Chain

/-!
# Chains of clauses

A derivation names the clauses that were used on the way down, one inside the
other.  Its first step answers to the goal it was recorded for, each rule on the
way has a goal in its body that the next step answers to, and the last step is
the head of a clause that was used to the end.  A depth limit bounds the number
of steps.
-/

namespace HornLogic

namespace KnowledgeBase

variable {kb : KnowledgeBase}

/-- A rule of the knowledge base with the first predicate as its head asks in its
body for a predicate of the signature of the second. -/
def LeadsTo (kb : KnowledgeBase) (head next : Predicate) : Prop :=
  ∃ rule, .rule rule ∈ kb.toList ∧ rule.head = head ∧
    ∃ goal ∈ rule.body, goal.signature = next.signature

/-- The steps lead from a goal of a signature down to a clause. -/
structure ClauseChain (kb : KnowledgeBase) (signature : Signature)
    (steps : Derivation) : Prop where
  starts : ∃ first, steps.head? = some first ∧ first.signature = signature
  linked : steps.IsChain kb.LeadsTo
  ends : ∃ clause ∈ kb.toList, steps.getLast? = some clause.head

namespace ClauseChain

theorem single {clause : Clause} (member : clause ∈ kb.toList) :
    kb.ClauseChain clause.head.signature [clause.head] where
  starts := ⟨clause.head, rfl, rfl⟩
  linked := .singleton _
  ends := ⟨clause, member, rfl⟩

theorem cons {rule : Rule} (member : .rule rule ∈ kb.toList) {goal : Predicate}
    (inside : goal ∈ rule.body) {steps : Derivation}
    (chain : kb.ClauseChain goal.signature steps) :
    kb.ClauseChain rule.head.signature (rule.head :: steps) := by
  obtain ⟨⟨first, starts, answers⟩, linked, clause, known, ends⟩ := chain
  obtain ⟨rest, rfl⟩ : ∃ rest, steps = first :: rest :=
    List.head?_eq_some_iff.mp starts
  refine ⟨⟨rule.head, rfl, rfl⟩, .cons_cons ?_ linked, clause, known, ?_⟩
  · exact ⟨rule, member, rfl, goal, inside, answers.symm⟩
  · rw [List.getLast?_cons_cons, ends]

end ClauseChain

end KnowledgeBase

/-- Every derivation is a chain of clauses for a signature, and none goes below
the depth limit. -/
def SearchLog.Chained (kb : KnowledgeBase) (settings : SearchSettings)
    (depth : Nat) (signature : Signature) (log : SearchLog) : Prop :=
  ∀ steps ∈ log.derivations, kb.ClauseChain signature steps ∧
    (settings.maxDepth ≠ 0 →
      depth + steps.length ≤ settings.maxDepth.toNat + 1)

open Search (Accounting)

/-- Derivations grow at the front, by the heads of the rules whose bodies are
proved, while the depth of the goal at hand falls by one. -/
theorem SearchLog.chained_accounting (kb : KnowledgeBase)
    (settings : SearchSettings) :
    Accounting kb settings (Chained kb settings) (Chained kb settings) where
  additive _ _ :=
    ⟨List.forall_mem_nil _, fun here there =>
      List.forall_mem_append.mpr ⟨here, there⟩⟩
  tried _ chained := chained
  givenUp _ _ := List.forall_mem_nil _
  compared _ _ _ _ := List.forall_mem_nil _
  recorded {depth clause} allowed member := by
    intro steps recorded
    rw [List.mem_singleton.mp recorded]
    refine ⟨.single member, fun limited => ?_⟩
    exact Nat.succ_le_succ ((SearchSettings.allows_iff limited).mp allowed)
  below {depth clause goal log} allowed member inside chained := by
    intro steps recorded
    obtain ⟨deeper, recordedBelow, rfl⟩ := List.mem_map.mp recorded
    obtain ⟨chain, bounded⟩ := chained deeper recordedBelow
    cases clause with
    | fact fact => cases inside
    | rule rule =>
        refine ⟨chain.cons member inside, fun limited => ?_⟩
        have within := bounded limited
        change depth + (deeper.length + 1) ≤ _
        omega

namespace Example

/-- The clauses used for the last edge of the longer path. -/
def descent : Derivation :=
  [⟨"path", [.var ⟨"X"⟩, .var ⟨"Z"⟩]⟩, ⟨"path", [.var ⟨"X"⟩, .var ⟨"Y"⟩]⟩,
    ⟨"edge", [.const "b", .const "c"]⟩]

end Example

namespace Resolver

/--
Every derivation that is recorded for a query is a chain of clauses under the
path of the query.  The first clause has the signature of the query, and under
a depth limit the chain has at most one step more than the limit.
-/
theorem chains_of_resolve {r after : Resolver} {query : Predicate}
    {path : Derivation} {solutions : List Predicate}
    (answered : r.resolve query path = some (solutions, after)) :
    ∃ recorded, after.log.derivations = r.log.derivations ++ recorded ∧
      ∀ derivation ∈ recorded, ∃ steps, derivation = path ++ steps ∧
        r.kb.ClauseChain query.signature steps ∧
        (r.settings.maxDepth ≠ 0 →
          steps.length ≤ r.settings.maxDepth.toNat + 1) := by
  obtain ⟨run, ended, _, rfl⟩ := search_of_resolve answered
  have chained := search_accounts
    (SearchLog.chained_accounting r.kb r.settings) query _ run ended
  refine ⟨run.log.derivations.map (path ++ ·), rfl, ?_⟩
  intro derivation member
  obtain ⟨steps, recorded, rfl⟩ := List.mem_map.mp member
  obtain ⟨chain, bounded⟩ := chained steps recorded
  rw [Nat.zero_add] at bounded
  exact ⟨steps, rfl, chain, bounded⟩

/-- The second path was found by the recursive rule, by the other rule for its
last goal and by an edge: three steps under a limit of two. -/
theorem chains_of_resolve_paths :
    ∃ solutions after,
      resolve { kb := Example.paths, settings := { maxDepth := 2 } }
        Example.query [⟨"why", []⟩] = some (solutions, after) ∧
      after.log.derivations[3]? = some ([⟨"why", []⟩] ++ Example.descent) ∧
      Example.paths.ClauseChain ("path", 2) Example.descent ∧
      Example.descent.length = 2 + 1 := by
  have found : (resolve
      { kb := Example.paths, settings := { maxDepth := 2 } } Example.query
      [⟨"why", []⟩]).map (fun answer => answer.2.log.derivations[3]?) =
        some (some ([⟨"why", []⟩] ++ Example.descent)) := by
    decide +kernel
  obtain ⟨⟨solutions, after⟩, answered, fourth⟩ :=
    Option.map_eq_some_iff.mp found
  obtain ⟨recorded, grown, chains⟩ := chains_of_resolve answered
  have member : [⟨"why", []⟩] ++ Example.descent ∈ recorded := by
    rw [← List.nil_append recorded]
    exact grown ▸ List.mem_of_getElem? fourth
  obtain ⟨steps, split, chain, _⟩ := chains _ member
  rw [← List.append_cancel_left split] at chain
  exact ⟨solutions, after, answered, fourth, chain, rfl⟩

end Resolver

end HornLogic
