import HornLogic.Proofs.Search.Nesting
import HornLogic.Proofs.Search.Related
import HornLogic.Search.SinglePass

/-!
# Single-pass search

Facts and rules are used in the same way up to the proof of the body.  The
single-pass search ends when nested goals have a bound.  It renames nothing, so
it does the same whatever generations were drawn before.
-/

namespace HornLogic.Search.SinglePass

theorem solve_succ (kb : KnowledgeBase) (settings : SearchSettings)
    (fuel depth : Nat) (query : Predicate) :
    solve kb settings (fuel + 1) depth query =
      if settings.allows depth then
        count { goals := 1, deepest := depth } >>= fun _ =>
          each (useClause (solve kb settings fuel (depth + 1)) query)
            (kb.named query.name)
      else
        count { cutoffs := 1 } >>= fun _ => pure [] := by
  rw [solve, enter_bind]
  rfl

def proceed (solve : Predicate → Search (List Predicate)) (query : Predicate)
    (unifier : Substitution) : Clause → Search (List Predicate)
  | .fact fact => record [fact] >>= fun _ => pure [unifier.apply query]
  | .rule rule =>
      under rule.head (allProved solve (rule.body.map unifier.apply)) >>=
        fun proved =>
          if proved then
            record [rule.head] >>= fun _ => pure [unifier.apply query]
          else
            pure []

theorem useClause_eq (solve : Predicate → Search (List Predicate))
    (query : Predicate) (clause : Clause) :
    useClause solve query clause =
      count { attempted := 1,
              succeeded := if (query.unify clause.head).isSome then 1 else 0 }
        >>= fun _ =>
          match query.unify clause.head with
          | none => pure []
          | some unifier => proceed solve query unifier clause := by
  cases clause with
  | fact fact =>
      rw [useClause, useFact]
      exact attempt_bind query fact _
  | rule rule =>
      rw [useClause, useRule]
      exact attempt_bind query rule.head _

/-- A clause answers nothing, or the query under the unifier with its head. -/
theorem useClause_run {solve : Predicate → Search (List Predicate)}
    {query : Predicate} {clause : Clause} {generation : Nat}
    {run : SearchRun (List Predicate)}
    (ended : useClause solve query clause generation = some run) :
    run.value = [] ∨
      ∃ u, query.unify clause.head = some u ∧ run.value = [u.apply query] := by
  rw [useClause_eq] at ended
  obtain ⟨_, rest, hcount, hrest, rfl⟩ := bind_eq_some.mp ended
  cases hcount
  cases unified : query.unify clause.head with
  | none =>
      rw [unified] at hrest
      cases hrest
      exact .inl rfl
  | some u =>
      rw [unified] at hrest
      cases clause with
      | fact fact =>
          obtain ⟨_, last, _, hlast, rfl⟩ := bind_eq_some.mp hrest
          cases hlast
          exact .inr ⟨u, rfl, rfl⟩
      | rule rule =>
          obtain ⟨proved, last, _, hlast, rfl⟩ := bind_eq_some.mp hrest
          split at hlast
          · obtain ⟨_, answered, _, hanswered, rfl⟩ := bind_eq_some.mp hlast
            cases hanswered
            exact .inr ⟨u, rfl, rfl⟩
          · cases hlast
            exact .inl rfl

/-! ## Termination -/

section Ending

variable {solve : Predicate → Search (List Predicate)}

theorem allProved_ends {goals : List Predicate}
    (ends : ∀ goal ∈ goals, (solve goal).Ends) :
    (allProved solve goals).Ends := by
  induction goals with
  | nil => exact .pure _
  | cons goal rest ih =>
      obtain ⟨first, others⟩ := List.forall_mem_cons.mp ends
      refine first.bind fun found => ?_
      split
      · exact .pure _
      · exact ih others

theorem useClause_ends {clause : Clause}
    (ends : ∀ goal ∈ clause.body, ∀ unifier : Substitution,
      (solve (unifier.apply goal)).Ends)
    (query : Predicate) : (useClause solve query clause).Ends := by
  rw [useClause_eq]
  refine (Ends.count _).bind fun _ => ?_
  cases query.unify clause.head with
  | none => exact .pure _
  | some unifier =>
      cases clause with
      | fact fact => exact (Ends.record _).bind fun _ => .pure _
      | rule rule =>
          have body : ∀ goal ∈ rule.body.map unifier.apply,
              (solve goal).Ends := by
            intro applied member
            obtain ⟨written, inside, rfl⟩ := List.mem_map.mp member
            exact ends written inside unifier
          refine ((allProved_ends body).under _).bind fun proved => ?_
          split
          · exact (Ends.record _).bind fun _ => .pure _
          · exact .pure _

end Ending

/-- The search for a query ends when the fuel reaches beyond a bound for the
goals nested in it. -/
theorem solve_ends {kb : KnowledgeBase} {settings : SearchSettings}
    {bound : Nat → String → Nat} (nests : kb.Nests settings bound)
    {fuel depth : Nat} {query : Predicate}
    (enough : bound depth query.name < fuel) :
    (solve kb settings fuel depth query).Ends := by
  induction fuel generalizing depth query with
  | zero => exact absurd enough (Nat.not_lt_zero _)
  | succ fuel ih =>
      rw [solve_succ]
      split
      · rename_i allowed
        refine (Ends.count _).bind fun _ => .each fun clause tried =>
          useClause_ends (fun deeper inside unifier => ih ?_) _
        obtain ⟨member, named⟩ := KnowledgeBase.mem_named.mp tried
        have falls := nests depth allowed clause member deeper inside
        rw [named] at falls
        exact Nat.lt_of_lt_of_le falls (Nat.le_of_lt_succ enough)
      · exact (Ends.count _).bind fun _ => .pure _

/-! ## Independence of generations -/

/-- The search does and finds the same, whatever was drawn before. -/
def Unmoved {α : Type} (search : Search (List α)) : Prop :=
  ∀ generation, Related Eq (fun _ => List.Forall₂ Eq) search generation search

section Unmoving

variable {solve : Predicate → Search (List Predicate)}
  (unmoved : ∀ query, Unmoved (solve query))
include unmoved

private theorem allProved_unmoved (goals : List Predicate)
    (generation : Nat) :
    Related Eq (fun _ => Eq) (allProved solve goals) generation
      (allProved solve goals) := by
  induction goals generalizing generation with
  | nil => exact .pure logCongruence_eq rfl
  | cons goal rest ih =>
      refine .bind logCongruence_eq (unmoved goal generation) ?_
      intro drawn found found' _ same
      rw [List.forall₂_eq_eq_eq] at same
      rw [same]
      split
      · exact .pure logCongruence_eq rfl
      · exact ih drawn

private theorem useClause_unmoved (query : Predicate) (clause : Clause) :
    Unmoved (useClause solve query clause) := by
  intro generation
  have answered : ∀ (drawn : Nat) (answer : Predicate),
      Related Eq (fun _ => List.Forall₂ Eq) (pure [answer]) drawn
        (pure [answer]) :=
    fun _ _ => .pure logCongruence_eq (.cons rfl .nil)
  rw [useClause_eq]
  refine .count_bind logCongruence_eq _ ?_
  cases query.unify clause.head with
  | none => exact .pure logCongruence_eq .nil
  | some unifier =>
      cases clause with
      | fact fact => exact .record_bind logCongruence_eq _ (answered _ _)
      | rule rule =>
          refine .bind logCongruence_eq (.under logCongruence_eq rule.head
            (allProved_unmoved unmoved _ generation)) ?_
          rintro drawn proved _ _ rfl
          split
          · exact .record_bind logCongruence_eq _ (answered _ _)
          · exact .pure logCongruence_eq .nil

end Unmoving

/-- The single-pass search does and finds the same, whatever was drawn
before. -/
theorem solve_unmoved (kb : KnowledgeBase) (settings : SearchSettings)
    (fuel depth : Nat) (query : Predicate) :
    Unmoved (solve kb settings fuel depth query) := by
  induction fuel generalizing depth query with
  | zero => exact fun _ => .endless
  | succ fuel ih =>
      intro generation
      rw [solve_succ]
      split
      · refine .count_bind logCongruence_eq _ <| .each logCongruence_eq
          (fun _ _ _ _ _ same => same)
          (List.forall₂_same.mpr fun clause _ drawn _ => ?_)
        exact useClause_unmoved (ih (depth + 1)) query clause drawn
      · exact .count_bind logCongruence_eq _ (.pure logCongruence_eq .nil)

end HornLogic.Search.SinglePass
