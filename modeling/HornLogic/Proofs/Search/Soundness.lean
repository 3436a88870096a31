import HornLogic.Proofs.Linear
import HornLogic.Proofs.Search.Call

/-!
# No wrong answer for linear programs

Unification forgets an equation when a variable stands at two places.  If
heads, goals and the query are linear, no equation is lost: the substitutions
of the search stay unaliased, and the search proves what it returns.  Every
ground instance of a solution has a proof tree within the depth limit.
-/

namespace HornLogic

namespace Search.Threaded

/-- The goal can be proved without losing an equation: it is linear, and its
variables are of one generation that was drawn before. -/
structure Askable (goal : Predicate) (generation : Nat) : Prop where
  linear : goal.Linear
  aged : ∃ age, goal.OfAge age
  within : goal.Within generation

theorem Askable.mono {goal : Predicate} {generation later : Nat}
    (askable : Askable goal generation) (after : generation ≤ later) :
    Askable goal later :=
  ⟨askable.linear, askable.aged, askable.within.mono after⟩

/-- The substitution is unaliased, and goals are provable wherever it holds. -/
def Settles (goals : List Predicate) (provable : Predicate → Prop)
    (s : Substitution) : Prop :=
  s.Unaliased ∧ ∀ values : Assignment, s.Holds values →
    ∀ goal ∈ goals, provable (goal.ground values)

/-- The search proves the goals for which it returns substitutions. -/
def Proves (solve : Predicate → Substitution → Search (List Substitution))
    (provable : Predicate → Prop) : Prop :=
  ∀ goal s generation, s.Layered generation → s.Unaliased →
    Askable goal generation → (solve goal s).Ensures generation fun found _ =>
      ∀ s' ∈ found, Settles [goal] provable s'

section Clauses

variable {solve : Predicate → Substitution → Search (List Substitution)}
  {provable : Predicate → Prop} (extending : Extending solve)
  (proves : Proves solve provable)
include extending proves

/-- Where a substitution found for several goals holds, all are provable. -/
theorem conjunction_proves {goals : List Predicate} {s : Substitution}
    {generation : Nat} (layered : s.Layered generation)
    (unaliased : s.Unaliased)
    (askable : ∀ goal ∈ goals, Askable goal generation) :
    (conjunction solve goals s).Ensures generation fun found _ =>
      ∀ s' ∈ found, Settles goals provable s' := by
  induction goals generalizing s generation with
  | nil =>
      refine .pure fun s' member => ?_
      rw [List.mem_singleton.mp member]
      exact ⟨unaliased, fun _ _ => List.forall_mem_nil _⟩
  | cons goal rest ih =>
      have first := askable goal List.mem_cons_self
      refine ((proves goal s generation layered unaliased first).and
        (extending goal s generation layered first.within)).bind ?_
      rintro extended drawn after ⟨settled, kept⟩
      refine .each (fun _ _ _ _ settles => settles) ?_
      intro s₁ member later beyond
      have layered₁ := (kept s₁ member).1.mono beyond
      have askableRest : ∀ goal ∈ rest, Askable goal later :=
        fun goal inside => (askable goal (List.mem_cons_of_mem _ inside)).mono
          (Nat.le_trans after beyond)
      have extends' := conjunction_extending extending rest s₁ later layered₁
        fun goal inside => (askableRest goal inside).within
      refine ((ih layered₁ (settled s₁ member).1 askableRest).and
        extends').weaken ?_
      rintro found last _ ⟨settledRest, keptRest⟩ s' inside
      refine ⟨(settledRest s' inside).1, fun values holds => ?_⟩
      have holds₁ := (keptRest s' inside).2.holds holds
      exact List.forall_mem_cons.mpr
        ⟨(settled s₁ member).2 values holds₁ goal (List.mem_singleton_self _),
          (settledRest s' inside).2 values holds⟩

/-- Where a substitution found by a clause holds, the goal is the head of an
instance of the clause whose body is provable. -/
theorem useClause_proves {clause : Clause} (plain : clause.Plain)
    (linear : clause.Linear) {goal : Predicate} {s : Substitution}
    {generation : Nat} (layered : s.Layered generation)
    (unaliased : s.Unaliased) (askable : Askable goal generation) :
    (useClause solve (s.resolve goal) s clause).Ensures generation
      fun found _ => ∀ s' ∈ found, s'.Unaliased ∧
        ∀ values : Assignment, s'.Holds values → ∃ instance' : Assignment,
          clause.head.ground instance' = goal.ground values ∧
            ∀ goal ∈ clause.body, provable (goal.ground instance') := by
  apply useClause_ensures
  · exact fun _ _ _ _ _ => List.forall_mem_nil _
  · intro fresh last u newer after bounded oldBody unified
    obtain ⟨age, aged⟩ := askable.aged
    have old := askable.within
    have new := clause.head.ofAge_renamed fresh
    have linearHead := (linear _ List.mem_cons_self).renamed
      (plain _ List.mem_cons_self) fresh
    have merged := layered.merged_unify old new newer unified after bounded
    have body : ∀ goal ∈ clause.body.map (·.renamed fresh),
        Askable goal last := by
      intro goal member
      have old := oldBody goal member
      obtain ⟨written, inside, rfl⟩ := List.mem_map.mp member
      have part := List.mem_cons_of_mem clause.head inside
      exact ⟨(linear written part).renamed (plain written part) fresh,
        ⟨fresh, written.ofAge_renamed fresh⟩, old⟩
    have found := (conjunction_proves extending proves merged
      (unaliased.merged_unify layered old new newer unified linearHead merged)
      body).and (conjunction_extending extending _ _ last merged
        oldBody)
    refine found.weaken ?_
    rintro found last' _ ⟨settled, kept⟩ s' member
    refine ⟨(settled s' member).1, fun values holds => ?_⟩
    have holdsMerged := (kept s' member).2.holds holds
    have holdsGoal := (layered.extends_merged_unify old new newer unified).holds
      holdsMerged
    have holdsUnifier := (s.merged_extends u).holds holdsMerged
    have disjoint : ∀ v, .var v ∈ (s.resolve goal).args →
        .var v ∉ (clause.head.renamed fresh).args := by
      intro v left right
      have known : v.age ≤ generation := layered.within.resolve old v left
      have born : v.age = fresh := new v right
      omega
    refine ⟨fun v => values (v.renamed fresh), ?_, fun goal inside => ?_⟩
    · calc clause.head.ground (fun v => values (v.renamed fresh))
          = (clause.head.renamed fresh).ground values :=
            (Predicate.ground_renamed _ _ _).symm
        _ = (s.resolve goal).ground values :=
            (Predicate.ground_eq_of_unify unified
              (unaliased.resolve aged askable.linear) linearHead disjoint
              holdsUnifier).symm
        _ = goal.ground values := holdsGoal.ground_resolve goal
    · rw [← Predicate.ground_renamed]
      exact (settled s' member).2 values holds _
        (List.mem_map.mpr ⟨goal, inside, rfl⟩)

end Clauses

/-- Whatever the search finds has a proof tree. -/
theorem solve_proves {kb : KnowledgeBase} (plain : kb.Plain)
    (linear : kb.Linear) {settings : SearchSettings}
    (limited : settings.maxDepth ≠ 0) (fuel depth : Nat) :
    Proves (solve kb settings fuel depth)
      (kb.ProofTree settings.maxDepth.toNat depth) := by
  induction fuel generalizing depth with
  | zero => exact fun _ _ _ _ _ _ => .endless
  | succ fuel ih =>
      intro goal s generation layered unaliased askable
      rw [solve_succ]
      split
      · rename_i allowed
        have shallow := (SearchSettings.allows_iff limited).mp allowed
        refine .count_bind _ <| .each (fun _ _ _ _ settles => settles) ?_
        intro clause member drawn after
        have known := (KnowledgeBase.mem_named.mp member).1
        refine (useClause_proves (solve_extending kb settings fuel (depth + 1))
          (ih (depth + 1)) (plain clause known) (linear clause known)
          (layered.mono after) unaliased (askable.mono after)).weaken ?_
        intro found _ _ proved s' inside
        refine ⟨(proved s' inside).1, fun values holds => ?_⟩
        obtain ⟨instance', head, body⟩ := (proved s' inside).2 values holds
        exact List.forall_mem_singleton.mpr
          (.of_clause known instance' head shallow body)
      · exact .count_bind _ <| .pure (List.forall_mem_nil _)

end Search.Threaded

namespace Resolver

/--
A threaded query under a depth limit is answered, and if the program and the
query are linear, every ground instance of every solution has a proof tree
within the limit.
-/
theorem resolve_sound (r : Resolver)
    (threaded : r.settings.conjunction = .threaded)
    (limited : r.settings.maxDepth ≠ 0) (plain : r.kb.Plain)
    (linear : r.kb.Linear) {query : Predicate} (plainQuery : query.Plain)
    (linearQuery : query.Linear) (path : Derivation) :
    ∃ solutions after, r.resolve query path = some (solutions, after) ∧
      ∀ solution ∈ solutions, ∀ values : Assignment,
        r.kb.ProofTree r.settings.maxDepth.toNat 0
          (solution.ground values) := by
  obtain ⟨run, ended, after, answered⟩ :=
    resolve_ends threaded limited query path
  refine ⟨_, after, answered, fun solution member values => ?_⟩
  obtain ⟨s, found, rfl⟩ := List.mem_map.mp member
  have empty := Substitution.layered_empty r.generation
  have within := plainQuery.within r.generation
  have layered := ((Search.Threaded.solve_extending r.kb r.settings r.kb.horizon
    0 query .empty r.generation empty within run ended).2 s found).1
  have settles := (Search.Threaded.solve_proves plain linear limited
    r.kb.horizon 0 query .empty r.generation empty
    Substitution.unaliased_empty ⟨linearQuery, ⟨0, plainQuery.ofAge⟩, within⟩
    run ended).2 s found
  rw [Substitution.ground_answer_eq]
  exact settles.2 _ (layered.holds_assignment _) query
    (List.mem_singleton_self _)

/-- The paths of a graph and the query for them are linear. -/
theorem resolve_sound_paths :
    ∃ solutions after,
      resolve { kb := Example.paths, settings := { maxDepth := 2 } }
        Example.query [] = some (solutions, after) ∧
      ∀ solution ∈ solutions, ∀ values : Assignment,
        Example.paths.ProofTree 2 0 (solution.ground values) :=
  resolve_sound { kb := Example.paths, settings := { maxDepth := 2 } } rfl
    (by decide) Example.plain_paths (by decide) Example.plain_query (by decide)
    []

end Resolver

end HornLogic
