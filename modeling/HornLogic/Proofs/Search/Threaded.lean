import HornLogic.Proofs.Layer
import HornLogic.Proofs.Search.Nesting
import HornLogic.Proofs.Search.Outcome
import HornLogic.Search.Threaded

/-!
# Threaded search

The threaded search ends when nested goals have a bound.  Whatever it returns
for a goal extends the substitution it was given and is layered with respect to
the generations drawn by then.
-/

namespace HornLogic.Search.Threaded

/-- A goal within the depth limit is tried by the clauses of its name. -/
theorem solve_succ (kb : KnowledgeBase) (settings : SearchSettings)
    (fuel depth : Nat) (goal : Predicate) (bindings : Substitution) :
    solve kb settings (fuel + 1) depth goal bindings =
      if settings.allows depth then
        count { goals := 1, deepest := depth } >>= fun _ =>
          each (useClause (solve kb settings fuel (depth + 1))
            (bindings.resolve goal) bindings) (kb.named goal.name)
      else
        count { cutoffs := 1 } >>= fun _ => pure [] := by
  rw [solve, enter_bind]
  rfl

/-- A fact is made fresh and compared with the goal. -/
theorem useFact_eq (goal : Predicate) (bindings : Substitution)
    (fact : Predicate) :
    useFact goal bindings fact =
      freshFact fact >>= fun fresh =>
        count { attempted := 1,
                succeeded := if (goal.unify fresh).isSome then 1 else 0 } >>=
          fun _ =>
            match goal.unify fresh with
            | none => pure []
            | some unifier =>
                record [fact] >>= fun _ => pure [bindings.merged unifier] := by
  rw [useFact]
  exact bind_congr fun fresh => attempt_bind goal fresh _

/-- A rule is renamed, its head compared with the goal and its body proved. -/
theorem useRule_eq
    (solve : Predicate → Substitution → Search (List Substitution))
    (goal : Predicate) (bindings : Substitution) (rule : Rule) :
    useRule solve goal bindings rule =
      freshGeneration >>= fun generation =>
        count { attempted := 1,
                succeeded :=
                  if (goal.unify (rule.head.renamed generation)).isSome then 1
                  else 0 } >>=
          fun _ =>
            match goal.unify (rule.head.renamed generation) with
            | none => pure []
            | some unifier =>
                under rule.head (conjunction solve
                    (rule.renamed generation).body
                    (bindings.merged unifier)) >>= fun proofs =>
                  recordEach rule.head proofs >>= fun _ => pure proofs := by
  rw [useRule]
  exact bind_congr fun generation =>
    attempt_bind goal (rule.head.renamed generation) _

theorem recordEach_run (head : Predicate) (proofs : List Substitution)
    (generation : Nat) :
    recordEach head proofs generation =
      some ⟨(), ⟨List.replicate proofs.length [head],
        { derivations := proofs.length }⟩, generation⟩ := by
  induction proofs with
  | nil => rfl
  | cons proof rest ih =>
      refine bind_eq_some.mpr ⟨_, _, rfl, ih, ?_⟩
      change _ = SearchRun.mk () ⟨[head] :: List.replicate rest.length [head],
        Stats.add { derivations := 1 } { derivations := rest.length }⟩ generation
      simp [Stats.add, List.replicate_succ, Nat.add_comm]

/-! ## Termination -/

section Ending

variable {solve : Predicate → Substitution → Search (List Substitution)}

theorem conjunction_ends {goals : List Predicate}
    (ends : ∀ goal ∈ goals, ∀ bindings, (solve goal bindings).Ends)
    (bindings : Substitution) : (conjunction solve goals bindings).Ends := by
  induction goals generalizing bindings with
  | nil => exact .pure _
  | cons goal rest ih =>
      obtain ⟨first, others⟩ := List.forall_mem_cons.mp ends
      exact (first bindings).bind fun extended => .each fun s _ => ih others s

theorem useClause_ends {clause : Clause}
    (ends : ∀ goal ∈ clause.body, ∀ generation bindings,
      (solve (goal.renamed generation) bindings).Ends)
    (goal : Predicate) (bindings : Substitution) :
    (useClause solve goal bindings clause).Ends := by
  cases clause with
  | fact fact =>
      have fresh : (freshFact fact).Ends := by
        rw [freshFact]
        split
        · exact .pure _
        · exact Ends.freshGeneration.bind fun _ => .pure _
      rw [useClause, useFact_eq]
      refine fresh.bind fun head => (Ends.count _).bind fun _ => ?_
      cases goal.unify head with
      | none => exact .pure _
      | some unifier => exact (Ends.record _).bind fun _ => .pure _
  | rule rule =>
      have recorded : ∀ proofs, (recordEach rule.head proofs).Ends := by
        intro proofs
        induction proofs with
        | nil => exact .pure _
        | cons proof rest ih => exact (Ends.record _).bind fun _ => ih
      have body : ∀ generation, ∀ goal ∈ (rule.renamed generation).body,
          ∀ bindings, (solve goal bindings).Ends := by
        intro generation renamed member
        obtain ⟨written, inside, rfl⟩ := List.mem_map.mp member
        exact ends written inside generation
      rw [useClause, useRule_eq]
      refine Ends.freshGeneration.bind fun generation =>
        (Ends.count _).bind fun _ => ?_
      cases goal.unify (rule.head.renamed generation) with
      | none => exact .pure _
      | some unifier =>
          exact ((conjunction_ends (body generation) _).under _).bind
            fun proofs => (recorded proofs).bind fun _ => .pure _

end Ending

/-- The search for a goal ends when the fuel reaches beyond a bound for the
goals nested in it. -/
theorem solve_ends {kb : KnowledgeBase} {settings : SearchSettings}
    {bound : Nat → String → Nat} (nests : kb.Nests settings bound)
    {fuel depth : Nat} {goal : Predicate} (enough : bound depth goal.name < fuel)
    (bindings : Substitution) :
    (solve kb settings fuel depth goal bindings).Ends := by
  induction fuel generalizing depth goal bindings with
  | zero => exact absurd enough (Nat.not_lt_zero _)
  | succ fuel ih =>
      rw [solve_succ]
      split
      · rename_i allowed
        refine (Ends.count _).bind fun _ => .each fun clause tried =>
          useClause_ends (fun deeper inside generation => ih ?_) _ _
        obtain ⟨member, named⟩ := KnowledgeBase.mem_named.mp tried
        have falls := nests depth allowed clause member deeper inside
        rw [named] at falls
        exact Nat.lt_of_lt_of_le falls (Nat.le_of_lt_succ enough)
      · exact (Ends.count _).bind fun _ => .pure _

/-! ## Using a clause -/

/-- A fact is unified in the form of a generation that was not drawn before;
renaming does not change a fact without variables. -/
private theorem freshFact_ensures (fact : Predicate) (generation : Nat) :
    (freshFact fact).Ensures generation fun head last =>
      ∃ fresh, generation < fresh ∧ head = fact.renamed fresh ∧
        head.Within last := by
  rw [freshFact]
  split
  · rename_i ground
    refine .pure ⟨generation + 1, Nat.lt_succ_self _, ?_, ?_⟩
    · exact (Predicate.renamed_of_isGround ground _).symm
    · exact (Predicate.ofAge_of_isGround ground 0).within (Nat.zero_le _)
  · have aged := fact.ofAge_renamed (generation + 1)
    exact .freshGeneration_bind <| .pure
      ⟨generation + 1, Nat.lt_succ_self _, rfl, aged.within (Nat.le_refl _)⟩

/-- Recording derivations does not touch the proofs. -/
private theorem recordEach_bind_ensures (head : Predicate)
    (proofs : List Substitution) {value : List Substitution} {generation : Nat}
    {property : List Substitution → Nat → Prop}
    (holds : property value generation) :
    (recordEach head proofs >>= fun _ => pure value).Ensures generation
      property := by
  induction proofs with
  | nil => exact .pure holds
  | cons proof rest ih =>
      rw [recordEach, bind_assoc]
      exact .record_bind _ ih

/--
What a search by a clause ensures: nothing is found if the head does not unify
with the goal; else it is what proving the body ensures.  Head and body are
renamed into a generation that was not drawn before.
-/
theorem useClause_ensures
    {solve : Predicate → Substitution → Search (List Substitution)}
    {goal : Predicate} {bindings : Substitution} {clause : Clause}
    {generation : Nat} {property : List Substitution → Nat → Prop}
    (rejected : ∀ fresh last, generation < fresh → generation ≤ last →
      goal.unify (clause.head.renamed fresh) = none → property [] last)
    (used : ∀ fresh last u, generation < fresh → generation ≤ last →
      (clause.head.renamed fresh).Within last →
      (∀ p ∈ clause.body.map (·.renamed fresh), p.Within last) →
      goal.unify (clause.head.renamed fresh) = some u →
      (conjunction solve (clause.body.map (·.renamed fresh))
        (bindings.merged u)).Ensures last property) :
    (useClause solve goal bindings clause).Ensures generation property := by
  cases clause with
  | fact fact =>
      rw [useClause, useFact_eq]
      refine (freshFact_ensures fact generation).bind ?_
      rintro _ last after ⟨fresh, newer, rfl, bounded⟩
      refine .count_bind _ ?_
      cases unified : goal.unify (fact.renamed fresh) with
      | none => exact .pure (rejected fresh last newer after unified)
      | some u =>
          exact .record_bind _ (used fresh last u newer after bounded
            (List.forall_mem_nil _) unified)
  | rule rule =>
      rw [useClause, useRule_eq]
      refine .freshGeneration_bind <| .count_bind _ ?_
      have newer := Nat.lt_succ_self generation
      cases unified : goal.unify (rule.head.renamed (generation + 1)) with
      | none => exact .pure (rejected _ _ newer (Nat.le_of_lt newer) unified)
      | some u =>
          have aged := rule.head.ofAge_renamed (generation + 1)
          have body := used _ _ u newer (Nat.le_of_lt newer)
            (aged.within (Nat.le_refl _))
            (fun p member => Rule.within_of_mem_body_renamed member) unified
          refine (body.under rule.head).bind fun proofs drawn _ holds => ?_
          exact recordEach_bind_ensures rule.head proofs holds

/-- A fact returns nothing, or the substitution merged with a unifier. -/
theorem useFact_run {goal fact : Predicate} {bindings : Substitution}
    {generation : Nat} {run : SearchRun (List Substitution)}
    (ended : useFact goal bindings fact generation = some run) :
    run.value = [] ∨ ∃ fresh u, goal.unify (fact.renamed fresh) = some u ∧
      run.value = [bindings.merged u] := by
  have merges : (useFact goal bindings fact).Ensures generation fun found _ =>
      found = [] ∨ ∃ fresh u, goal.unify (fact.renamed fresh) = some u ∧
        found = [bindings.merged u] := by
    rw [useFact_eq]
    refine (freshFact_ensures fact generation).bind ?_
    rintro _ last _ ⟨fresh, _, rfl, _⟩
    refine .count_bind _ ?_
    cases unified : goal.unify (fact.renamed fresh) with
    | none => exact .pure (.inl rfl)
    | some u => exact .record_bind _ <| .pure (.inr ⟨fresh, u, unified, rfl⟩)
  exact (merges run ended).2

/-- A rule returns nothing if its head does not unify with the goal, and else
what proving its body returns. -/
theorem useRule_run
    {solve : Predicate → Substitution → Search (List Substitution)}
    {goal : Predicate} {bindings : Substitution} {rule : Rule}
    {generation : Nat} {run : SearchRun (List Substitution)}
    (ended : useRule solve goal bindings rule generation = some run) :
    (goal.unify (rule.renamed (generation + 1)).head = none ∧ run.value = []) ∨
      ∃ u body, goal.unify (rule.renamed (generation + 1)).head = some u ∧
        conjunction solve (rule.renamed (generation + 1)).body
          (bindings.merged u) (generation + 1) = some body ∧
        run.value = body.value := by
  rw [useRule_eq] at ended
  obtain ⟨_, drawn, hfresh, hdrawn, rfl⟩ := bind_eq_some.mp ended
  cases hfresh
  obtain ⟨_, counted, hcounted, hmatch, rfl⟩ := bind_eq_some.mp hdrawn
  cases hcounted
  cases unified : goal.unify (rule.head.renamed (generation + 1)) with
  | none =>
      rw [unified] at hmatch
      cases hmatch
      exact .inl ⟨unified, rfl⟩
  | some u =>
      rw [unified] at hmatch
      obtain ⟨proofs, tail, hproofs, htail, rfl⟩ := bind_eq_some.mp hmatch
      obtain ⟨_, last, _, hlast, rfl⟩ := bind_eq_some.mp htail
      cases hlast
      rw [under, Option.map_eq_some_iff] at hproofs
      obtain ⟨body, hbody, rfl⟩ := hproofs
      exact .inr ⟨u, body, unified, hbody, rfl⟩

/-! ## What the results have in common -/

/-- A search for goals returns layered extensions of what it was given. -/
def Extending
    (solve : Predicate → Substitution → Search (List Substitution)) : Prop :=
  ∀ (goal : Predicate) (bindings : Substitution) (generation : Nat),
    bindings.Layered generation → goal.Within generation →
      (solve goal bindings).Ensures generation fun found last =>
        ∀ s ∈ found, s.Layered last ∧ s.Extends bindings

/-- Being a layered extension lasts. -/
private theorem layered_extension_lasting (bindings : Substitution)
    (s : Substitution) (drawn later : Nat) (after : drawn ≤ later)
    (kept : s.Layered drawn ∧ s.Extends bindings) :
    s.Layered later ∧ s.Extends bindings :=
  ⟨kept.1.mono after, kept.2⟩

section Results

variable {solve : Predicate → Substitution → Search (List Substitution)}
  (extending : Extending solve)
include extending

theorem conjunction_extending (goals : List Predicate)
    (bindings : Substitution) (generation : Nat)
    (layered : bindings.Layered generation)
    (old : ∀ goal ∈ goals, goal.Within generation) :
    (conjunction solve goals bindings).Ensures generation fun found last =>
      ∀ s ∈ found, s.Layered last ∧ s.Extends bindings := by
  induction goals generalizing bindings generation with
  | nil =>
      refine .pure fun s member => ?_
      rw [List.mem_singleton.mp member]
      exact ⟨layered, .refl bindings⟩
  | cons goal rest ih =>
      have first := extending goal bindings generation layered
        (old goal List.mem_cons_self)
      refine first.bind fun extended drawn after kept => ?_
      refine .each (layered_extension_lasting bindings) ?_
      intro s member later beyond
      have oldRest : ∀ goal ∈ rest, goal.Within later := fun goal inside =>
        (old goal (List.mem_cons_of_mem _ inside)).mono
          (Nat.le_trans after beyond)
      refine (ih s later ((kept s member).1.mono beyond) oldRest).weaken ?_
      intro found last _ each s' inside
      exact ⟨(each s' inside).1, (each s' inside).2.trans (kept s member).2⟩

theorem useClause_extending (goal : Predicate) (bindings : Substitution)
    (generation : Nat) (layered : bindings.Layered generation)
    (old : goal.Within generation) (clause : Clause) :
    (useClause solve (bindings.resolve goal) bindings clause).Ensures generation
      fun found last => ∀ s ∈ found, s.Layered last ∧ s.Extends bindings := by
  apply useClause_ensures
  · exact fun _ _ _ _ _ => List.forall_mem_nil _
  · intro fresh last u newer after bounded body unified
    have aged := clause.head.ofAge_renamed fresh
    have merged := layered.merged_unify old aged newer unified after bounded
    have larger := layered.extends_merged_unify old aged newer unified
    refine (conjunction_extending extending _ _ last merged body).weaken ?_
    intro found _ _ kept s member
    exact ⟨(kept s member).1, (kept s member).2.trans larger⟩

end Results

/-- Whatever the search returns for a goal is a layered extension of the
substitution it was given. -/
theorem solve_extending (kb : KnowledgeBase) (settings : SearchSettings)
    (fuel depth : Nat) : Extending (solve kb settings fuel depth) := by
  induction fuel generalizing depth with
  | zero => exact fun _ _ _ _ _ => .endless
  | succ fuel ih =>
      intro goal bindings generation layered old
      rw [solve_succ]
      split
      · refine .count_bind _ <| .each (layered_extension_lasting bindings) ?_
        intro clause _ drawn after
        exact useClause_extending (ih (depth + 1)) goal bindings drawn
          (layered.mono after) (old.mono after) clause
      · exact .count_bind _ <| .pure (List.forall_mem_nil _)

end HornLogic.Search.Threaded
