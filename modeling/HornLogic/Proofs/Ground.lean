import HornLogic.KnowledgeBase
import HornLogic.Proofs.Layer

/-!
# Ground instances and proof trees

An assignment gives a constant to every variable.  A substitution holds under
an assignment that respects all its bindings; then walking, resolving and
answering do not change the ground instance.  A layered substitution holds
whatever constants the ends of its chains stand for.  Two predicates with a
common ground instance unify, and the unifier holds.  A ground predicate is
proved by a tree of ground instances of clauses whose nodes stay within a depth.
-/

namespace HornLogic

abbrev Assignment := Variable → String

def Term.value (values : Assignment) : Term → String
  | .const name => name
  | .var v => values v

namespace Predicate

def ground (p : Predicate) (values : Assignment) : Predicate :=
  ⟨p.name, p.args.map fun arg => .const (arg.value values)⟩

/-- Only the variables of a predicate matter for its ground instance. -/
theorem ground_congr {p : Predicate} {values others : Assignment}
    (agree : ∀ v, .var v ∈ p.args → values v = others v) :
    p.ground values = p.ground others := by
  apply map_args_congr
  intro arg member
  cases arg with
  | const name => rfl
  | var v => exact congrArg Term.const (agree v member)

/-- Grounding a renamed predicate grounds the predicate by the new names. -/
theorem ground_renamed (p : Predicate) (generation : Nat) (values : Assignment) :
    (p.renamed generation).ground values =
      p.ground fun v => values (v.renamed generation) := by
  simp only [ground, renamed, List.map_map]
  apply map_args_congr
  intro arg _
  cases arg <;> rfl

/-- Facing arguments of predicates with a common ground instance have one
value. -/
theorem Facing.value_eq {p q : Predicate} {values : Assignment} {a b : Term}
    (facing : p.Facing q a b) (same : p.ground values = q.ground values) :
    a.value values = b.value values := by
  have constants := facing.map_eq (congrArg Predicate.args same)
  exact Term.const.inj constants

end Predicate

namespace Substitution

/-- An assignment respects every binding. -/
def Holds (s : Substitution) (values : Assignment) : Prop :=
  ∀ v term, s.get? v = some term → values v = term.value values

theorem holds_empty (values : Assignment) : empty.Holds values :=
  fun _ _ found => nomatch found

/-- What holds for a larger substitution holds for a smaller one. -/
theorem Extends.holds {larger smaller : Substitution} {values : Assignment}
    (extending : larger.Extends smaller) (holds : larger.Holds values) :
    smaller.Holds values :=
  fun v term found => holds v term (extending v term found)

namespace Holds

variable {s : Substitution} {values : Assignment} (holds : s.Holds values)
include holds

theorem value_walk (term : Term) :
    (s.walk term).value values = term.value values := by
  suffices follow : ∀ steps term,
      (s.follow steps term).value values = Term.value values term from
    follow _ term
  intro steps
  induction steps with
  | zero => exact fun _ => rfl
  | succ steps ih =>
      intro term
      cases term with
      | const name => rfl
      | var v =>
          rw [Substitution.follow]
          cases found : s.get? v with
          | none => rfl
          | some next =>
              dsimp only
              split
              · rfl
              · rw [ih next]
                exact (holds v next found).symm

theorem ground_resolve (p : Predicate) :
    (s.resolve p).ground values = p.ground values := by
  simp only [resolve, Predicate.ground, List.map_map]
  apply Predicate.map_args_congr
  intro arg _
  exact congrArg Term.const (holds.value_walk arg)

theorem merged {other : Substitution} (right : other.Holds values) :
    (s.merged other).Holds values := by
  intro v term found
  rw [get?_merged, Option.or_eq_some_iff] at found
  rcases found with new | ⟨_, old⟩
  · exact right v term new
  · exact holds v term old

/-- The end of a chain is named by a variable whose chain ends there. -/
theorem value_firstReaching {last : Variable} {args : List Term}
    {v : Variable} (found : s.firstReaching last args = some v) :
    values v = values last := by
  have walked := holds.value_walk (.var v)
  rw [(firstReaching_spec found).2] at walked
  exact walked.symm

/-- The ground instance of a query is an instance of its answer. -/
theorem ground_answer (query : Predicate) :
    (s.answer query).ground values = query.ground values := by
  simp only [answer, Predicate.ground, List.map_map]
  apply Predicate.map_args_congr
  intro arg _
  refine congrArg Term.const ?_
  cases ends : s.walk arg with
  | const name =>
      rw [answerTerm_of_walk_const ends, ← ends]
      exact holds.value_walk arg
  | var last =>
      cases arg with
      | const name => cases ends
      | var v =>
          have walked := holds.value_walk (.var v)
          rw [ends] at walked
          rw [answerTerm_of_walk_var ends]
          cases found : s.firstReaching last query.args with
          | none => rfl
          | some w => exact (holds.value_firstReaching found).trans walked

end Holds

/-- Variables get the constants that the ends of their chains stand for. -/
def assignment (s : Substitution) (ends : Assignment) : Assignment := fun v =>
  (s.walk (.var v)).value ends

/-- Whatever the ends stand for, a layered substitution holds. -/
theorem Layered.holds_assignment {s : Substitution} {generation : Nat}
    (layered : s.Layered generation) (ends : Assignment) :
    s.Holds (s.assignment ends) := by
  intro v term found
  rw [assignment, layered.walk_bound found]
  cases term <;> rfl

/-- An instance of an answer is the instance of the query in which the ends of
chains stand for what their names do. -/
theorem ground_answer_eq (s : Substitution) (query : Predicate)
    (values : Assignment) :
    (s.answer query).ground values =
      query.ground (s.assignment fun last =>
        values ((s.firstReaching last query.args).getD last)) := by
  simp only [answer, Predicate.ground, List.map_map]
  apply Predicate.map_args_congr
  intro arg member
  refine congrArg Term.const ?_
  cases arg with
  | const name => rfl
  | var v =>
      rw [Term.value, assignment]
      cases ends : s.walk (.var v) with
      | const name =>
          rw [answerTerm_of_walk_const ends]
          rfl
      | var last =>
          obtain ⟨w, named⟩ := firstReaching_isSome member ends
          rw [answerTerm_of_walk_var ends, Term.value, Term.value, named]
          rfl

end Substitution

/-- Predicates with a common ground instance unify, and the unifier asserts
nothing that the instance does not. -/
theorem Predicate.unify_of_ground_eq {p q : Predicate} {values : Assignment}
    (same : p.ground values = q.ground values) :
    ∃ u, p.unify q = some u ∧ u.Holds values := by
  have names := congrArg Predicate.name same
  have arities : p.arity = q.arity := by
    have lengths := congrArg (fun r : Predicate => r.args.length) same
    simpa [ground, arity] using lengths
  have succeeds : (p.unify q).isSome :=
    unify_isSome_iff.mpr ⟨names, arities, fun a b facing => facing.value_eq same⟩
  obtain ⟨u, unified⟩ := Option.isSome_iff_exists.mp succeeds
  refine ⟨u, unified, fun v term found => ?_⟩
  obtain ⟨a, b, facing, binds⟩ := unify_binds unified found
  have values_eq := facing.value_eq same
  cases binds with
  | left => exact values_eq
  | right name => exact values_eq.symm

namespace KnowledgeBase

/--
A ground predicate has a proof tree when it is the head of a ground instance
of a clause whose body goals have proof trees one level deeper.  The root is
at the given depth, and no node lies deeper than the limit.
-/
inductive ProofTree (kb : KnowledgeBase) (limit : Nat) :
    Nat → Predicate → Prop where
  | node {depth : Nat} {clause : Clause} (member : clause ∈ kb.toList)
      (values : Assignment) (shallow : depth ≤ limit)
      (children : ∀ goal ∈ clause.body,
        ProofTree kb limit (depth + 1) (goal.ground values)) :
      ProofTree kb limit depth (clause.head.ground values)

/-- A clause proves the ground predicate that its head becomes. -/
theorem ProofTree.of_clause {kb : KnowledgeBase} {limit depth : Nat}
    {atom : Predicate} {clause : Clause} (member : clause ∈ kb.toList)
    (values : Assignment) (head : clause.head.ground values = atom)
    (shallow : depth ≤ limit)
    (children : ∀ goal ∈ clause.body,
      ProofTree kb limit (depth + 1) (goal.ground values)) :
    ProofTree kb limit depth atom :=
  head ▸ .node member values shallow children

end KnowledgeBase

end HornLogic
