import HornLogic.Proofs.Plain

/-!
# Matching ground goals

Unifying a ground goal with the head of a clause binds exactly the variables of
the head, each to a constant of the goal.  Where two constants stand against one
variable the last one counts, in the head as it is written and in the head
renamed apart alike.  A body whose variables all occur in the head therefore
becomes the same ground goals in both.
-/

namespace HornLogic

/-- Every variable of the body occurs in the head. -/
def Clause.Covered (clause : Clause) : Prop :=
  ∀ goal ∈ clause.body, ∀ arg ∈ goal.args, arg.isVar → arg ∈ clause.head.args

instance : DecidablePred Clause.Covered := fun clause =>
  inferInstanceAs (Decidable (∀ goal ∈ clause.body, ∀ arg ∈ goal.args,
    arg.isVar → arg ∈ clause.head.args))

def KnowledgeBase.Covered (kb : KnowledgeBase) : Prop :=
  ∀ clause ∈ kb.toList, clause.Covered

instance : DecidablePred KnowledgeBase.Covered := fun kb =>
  inferInstanceAs (Decidable (∀ clause ∈ kb.toList, clause.Covered))

namespace Predicate

theorem exists_const_of_isGround {p : Predicate} (ground : p.isGround)
    {arg : Term} (member : arg ∈ p.args) : ∃ name, arg = .const name := by
  cases arg with
  | const name => exact ⟨name, rfl⟩
  | var v => exact absurd member (not_mem_of_isGround ground v)

theorem map_args_of_isGround {p : Predicate} (ground : p.isGround)
    {f : Term → Term} (keeps : ∀ name, f (.const name) = .const name) :
    ⟨p.name, p.args.map f⟩ = p := by
  apply map_args_eq_self
  intro arg member
  obtain ⟨name, rfl⟩ := exists_const_of_isGround ground member
  exact keeps name

theorem plain_of_isGround {p : Predicate} (ground : p.isGround) : p.Plain := by
  intro arg member
  obtain ⟨name, rfl⟩ := exists_const_of_isGround ground member
  exact trivial

end Predicate

namespace Substitution

def Grounds (s : Substitution) (p : Predicate) : Prop :=
  ∀ v, .var v ∈ p.args → ∃ name, s.get? v = some (.const name)

theorem Grounds.isGround_apply {s : Substitution} {p : Predicate}
    (grounds : s.Grounds p) : (s.apply p).isGround := by
  refine List.all_eq_true.mpr fun arg member => ?_
  obtain ⟨written, inside, rfl⟩ := List.mem_map.mp member
  cases written with
  | const name => rfl
  | var v =>
      obtain ⟨name, bound⟩ := grounds v inside
      simp [applyTerm, bound, Term.isVar]

theorem walk_of_get?_const {s : Substitution} {v : Variable} {name : String}
    (bound : s.get? v = some (.const name)) : s.walk (.var v) = .const name := by
  have stops : s.Rests (.const name) := fun _ same => nomatch same
  exact (Leads.step bound (fun same => nomatch same) (.stop stops)).walk

/-- The other substitution binds plain variables, renamed into a generation, as
the first one binds them. -/
def Copied (s other : Substitution) (generation : Nat) : Prop :=
  ∀ v : Variable, v.Plain → other.get? (v.renamed generation) = s.get? v

theorem copied_empty (generation : Nat) : empty.Copied empty generation :=
  fun _ _ => rfl

theorem Copied.bind {s other : Substitution} {generation : Nat}
    (copied : s.Copied other generation) {v : Variable} (plain : v.Plain)
    (term : Term) :
    (s.bind v term).Copied (other.bind (v.renamed generation) term)
      generation := by
  intro w plain'
  rw [get?_bind, get?_bind, copied w plain']
  by_cases same : w = v
  · rw [if_pos same, if_pos (congrArg (·.renamed generation) same)]
  · rw [if_neg same, if_neg fun image =>
      same (plain'.renamed_injective plain image)]

/-- Constants are equated with terms and with renamed terms in step. -/
theorem Copied.equateAll {pairs : List (Term × Term)}
    (constants : ∀ pair ∈ pairs, ∃ name, pair.1 = .const name)
    (plain : ∀ pair ∈ pairs, pair.2.Plain) {s other : Substitution}
    {generation : Nat} (copied : s.Copied other generation) :
    Option.Rel (Copied · · generation) (s.equateAll pairs)
      (other.equateAll
        (pairs.map fun pair => (pair.1, pair.2.renamed generation))) := by
  induction pairs generalizing s other with
  | nil => exact .some copied
  | cons pair rest ih =>
      obtain ⟨a, b⟩ := pair
      obtain ⟨⟨name, rfl⟩, others⟩ := List.forall_mem_cons.mp constants
      obtain ⟨here, there⟩ := List.forall_mem_cons.mp plain
      cases b with
      | var v => exact ih others there (copied.bind here (.const name))
      | const facing =>
          rw [List.map_cons, Substitution.equateAll, Substitution.equateAll,
            Term.renamed, equate, equate]
          by_cases same : name = facing
          · rw [if_pos same, if_pos same]
            exact ih others there copied
          · rw [if_neg same, if_neg same]
            exact .none

/-- A goal whose variables are bound to constants resolves, renamed, to what one
step makes of it as it is written. -/
theorem Copied.resolve_renamed {u u' : Substitution} {generation : Nat}
    (copied : u.Copied u' generation) {goal : Predicate} (plain : goal.Plain)
    (grounds : u.Grounds goal) {larger : Substitution}
    (extending : larger.Extends u') :
    larger.resolve (goal.renamed generation) = u.apply goal := by
  simp only [resolve, apply, Predicate.renamed, List.map_map]
  apply Predicate.map_args_congr
  intro arg member
  cases arg with
  | const name => rfl
  | var v =>
      obtain ⟨name, bound⟩ := grounds v member
      have image : larger.get? (v.renamed generation) = some (.const name) :=
        extending _ _ ((copied v (plain.var member)).trans bound)
      simp [Term.renamed, applyTerm, bound, walk_of_get?_const image]

end Substitution

namespace Predicate

section Matching

variable {goal head : Predicate} (ground : goal.isGround)
include ground

/-- A ground goal is unified in step with a head and with the renamed head. -/
theorem unify_renamed (plain : head.Plain) (generation : Nat) :
    Option.Rel (Substitution.Copied · · generation) (goal.unify head)
      (goal.unify (head.renamed generation)) := by
  have arity_eq : (head.renamed generation).arity = head.arity := by
    simp [arity, renamed]
  have zipped : goal.args.zip (head.renamed generation).args =
      (goal.args.zip head.args).map fun pair =>
        (pair.1, pair.2.renamed generation) := by
    simp only [renamed, List.zip_map_right]
    rfl
  rw [unify, unify, arity_eq, zipped]
  by_cases alike : goal.name = head.name ∧ goal.arity = head.arity
  · have renamed : goal.name = (head.renamed generation).name ∧
        goal.arity = head.arity := alike
    rw [if_pos alike, if_pos renamed]
    refine (Substitution.copied_empty generation).equateAll ?_ ?_
    · exact fun pair member =>
        exists_const_of_isGround ground (List.of_mem_zip member).1
    · exact fun pair member => plain _ (List.of_mem_zip member).2
  · have renamed : ¬ (goal.name = (head.renamed generation).name ∧
        goal.arity = head.arity) := alike
    rw [if_neg alike, if_neg renamed]
    exact .none

variable {u : Substitution} (unified : goal.unify head = some u)
include unified

/-- Only variables of the head are bound. -/
theorem mem_head_of_unify {v : Variable} {term : Term}
    (found : u.get? v = some term) : .var v ∈ head.args := by
  obtain ⟨a, b, facing, binds⟩ := unify_binds unified found
  cases binds with
  | left => exact absurd facing.mem.1 (not_mem_of_isGround ground v)
  | right name => exact facing.mem.2

/-- Every variable of the head is bound to a constant. -/
theorem grounds_of_unify : u.Grounds head := by
  intro v member
  obtain ⟨place, inside⟩ := List.mem_iff_getElem?.mp member
  have bounded : place < goal.args.length := by
    have same : goal.args.length = head.args.length :=
      (unify_eq_some unified).2.1
    rw [same]
    exact (List.getElem?_eq_some_iff.mp inside).1
  obtain ⟨name, constant⟩ :=
    exists_const_of_isGround ground (List.getElem_mem bounded)
  have facing : goal.Facing head (.const name) (.var v) :=
    ⟨place, by rw [List.getElem?_eq_getElem bounded, constant], inside⟩
  obtain ⟨term, found⟩ := unify_bound unified facing (.right name v)
  obtain ⟨a, b, facing', binds⟩ := unify_binds unified found
  cases binds with
  | left => exact absurd facing'.mem.1 (not_mem_of_isGround ground v)
  | right other => exact ⟨other, found⟩

/-- A goal all of whose variables occur in the head becomes ground. -/
theorem grounds_of_covered {written : Predicate}
    (covered : ∀ arg ∈ written.args, arg.isVar → arg ∈ head.args) :
    u.Grounds written :=
  fun v member => grounds_of_unify ground unified v (covered _ member rfl)

end Matching

end Predicate

end HornLogic
