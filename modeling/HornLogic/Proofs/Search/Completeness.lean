import HornLogic.Proofs.Ground
import HornLogic.Proofs.Search.Call

/-!
# No answer is lost

If a ground instance of a query has a proof tree within the depth limit, it is
an instance of a solution.  The search finds a substitution that holds under
the assignment of the instance, extended clause by clause: the variables of a
clause in use are of a new generation, and get the constants that the clause
has in the tree.
-/

namespace HornLogic

namespace Assignment

def Agrees (values others : Assignment) (generation : Nat) : Prop :=
  ∀ v : Variable, v.age ≤ generation → values v = others v

theorem Agrees.trans {first second third : Assignment}
    {generation later : Nat} (lower : first.Agrees second generation)
    (upper : second.Agrees third later) (after : generation ≤ later) :
    first.Agrees third generation :=
  fun v old => (lower v old).trans (upper v (Nat.le_trans old after))

/-- Give the variables of a generation the constants of a clause. -/
def overlay (values : Assignment) (generation : Nat)
    (instance' : Assignment) : Assignment := fun v =>
  if v.generation? = some generation then instance' ⟨v.base⟩ else values v

theorem agrees_overlay (values instance' : Assignment)
    {generation fresh : Nat} (newer : generation < fresh) :
    values.Agrees (values.overlay fresh instance') generation := by
  intro v old
  have other : v.generation? ≠ some fresh := by
    intro found
    have aged : v.age = fresh := by simp [Variable.age, found]
    omega
  rw [overlay, if_neg other]

/-- A plain predicate that is renamed into the generation has its instance. -/
theorem ground_renamed_overlay {p : Predicate} (plain : p.Plain)
    (values instance' : Assignment) (fresh : Nat) :
    (p.renamed fresh).ground (values.overlay fresh instance') =
      p.ground instance' := by
  rw [Predicate.ground_renamed]
  apply Predicate.ground_congr
  intro v member
  rw [overlay, if_pos (Variable.generation?_renamed v fresh),
    Variable.base_renamed, (plain.var member).base_eq]

variable {values others : Assignment} {generation : Nat}

theorem Agrees.ground_eq (agrees : values.Agrees others generation)
    {p : Predicate} (old : p.Within generation) :
    p.ground others = p.ground values :=
  Predicate.ground_congr fun v member => (agrees v (old v member)).symm

theorem Agrees.holds (agrees : values.Agrees others generation)
    {s : Substitution} (within : s.Within generation) (holds : s.Holds values) :
    s.Holds others := by
  intro v term found
  obtain ⟨old, oldTerm⟩ := within v term found
  rw [← agrees v old, holds v term found]
  cases term with
  | const name => rfl
  | var w => exact agrees w oldTerm

end Assignment

namespace Search.Threaded

/-- The substitution is layered and holds under an assignment that agrees with
a given one. -/
def Supports (values : Assignment) (generation : Nat) (s : Substitution)
    (last : Nat) : Prop :=
  s.Layered last ∧ ∃ others, s.Holds others ∧ values.Agrees others generation

private theorem supports_lasting (values : Assignment) (generation : Nat)
    (s : Substitution) (drawn later : Nat) (after : drawn ≤ later)
    (supports : Supports values generation s drawn) :
    Supports values generation s later :=
  ⟨supports.1.mono after, supports.2⟩

/-- The search finds a substitution for every goal of a ground instance. -/
def Finds (solve : Predicate → Substitution → Search (List Substitution))
    (atom : Predicate) : Prop :=
  ∀ goal s generation (values : Assignment), s.Layered generation →
    goal.Within generation → s.Holds values → goal.ground values = atom →
      (solve goal s).Ensures generation fun found last =>
        ∃ s' ∈ found, Supports values generation s' last

section Clauses

variable {solve : Predicate → Substitution → Search (List Substitution)}

/-- If each goal is found, so is a substitution for all of them. -/
theorem conjunction_finds (extending : Extending solve)
    {goals : List Predicate} {s : Substitution} {generation : Nat}
    {values : Assignment} (layered : s.Layered generation)
    (old : ∀ goal ∈ goals, goal.Within generation) (holds : s.Holds values)
    (finds : ∀ goal ∈ goals, Finds solve (goal.ground values)) :
    (conjunction solve goals s).Ensures generation fun found last =>
      ∃ s' ∈ found, Supports values generation s' last := by
  induction goals generalizing s generation values with
  | nil =>
      exact .pure ⟨s, List.mem_singleton_self s, layered, values, holds,
        fun _ _ => rfl⟩
  | cons goal rest ih =>
      have oldGoal := old goal List.mem_cons_self
      have found := finds goal List.mem_cons_self goal s generation values
        layered oldGoal holds rfl
      refine (found.and (extending goal s generation layered oldGoal)).bind ?_
      rintro extended drawn after
        ⟨⟨s₁, member, _, others, holds₁, agrees⟩, kept⟩
      have oldRest : ∀ later, drawn ≤ later → ∀ goal ∈ rest,
          goal.Within later := fun later beyond goal inside =>
        (old goal (List.mem_cons_of_mem _ inside)).mono
          (Nat.le_trans after beyond)
      refine .each_exists (supports_lasting values generation)
        (fun s' inside later beyond => conjunction_extending extending rest s'
          later ((kept s' inside).1.mono beyond) (oldRest later beyond))
        member fun later beyond => ?_
      have findsRest : ∀ goal ∈ rest, Finds solve (goal.ground others) := by
        intro goal inside
        rw [agrees.ground_eq (old goal (List.mem_cons_of_mem _ inside))]
        exact finds goal (List.mem_cons_of_mem _ inside)
      refine (ih ((kept s₁ member).1.mono beyond) (oldRest later beyond) holds₁
        findsRest).weaken ?_
      rintro found last _ ⟨s', inside, layered', final, holds', agrees'⟩
      exact ⟨s', inside, layered', final, holds',
        agrees.trans agrees' (Nat.le_trans after beyond)⟩

/-- A clause whose head has the instance of the goal finds a substitution if
its body is found. -/
theorem useClause_finds (extending : Extending solve) {clause : Clause}
    (plain : clause.Plain) {instance' : Assignment}
    (body : ∀ goal ∈ clause.body, Finds solve (goal.ground instance'))
    {goal : Predicate} {s : Substitution} {generation : Nat}
    {values : Assignment} (layered : s.Layered generation)
    (old : goal.Within generation) (holds : s.Holds values)
    (same : goal.ground values = clause.head.ground instance') :
    (useClause solve (s.resolve goal) s clause).Ensures generation
      fun found last => ∃ s' ∈ found, Supports values generation s' last := by
  have plainHead : clause.head.Plain := plain _ List.mem_cons_self
  have unifies : ∀ fresh, generation < fresh → ∃ u,
      (s.resolve goal).unify (clause.head.renamed fresh) = some u ∧
        u.Holds (values.overlay fresh instance') ∧
        s.Holds (values.overlay fresh instance') := by
    intro fresh newer
    have agrees := values.agrees_overlay instance' newer
    have holds' := agrees.holds layered.within holds
    have common : (s.resolve goal).ground (values.overlay fresh instance') =
        (clause.head.renamed fresh).ground (values.overlay fresh instance') :=
      calc (s.resolve goal).ground (values.overlay fresh instance')
          = goal.ground (values.overlay fresh instance') :=
            holds'.ground_resolve goal
        _ = goal.ground values := agrees.ground_eq old
        _ = clause.head.ground instance' := same
        _ = _ := (Assignment.ground_renamed_overlay plainHead ..).symm
    obtain ⟨u, unified, unifier⟩ := Predicate.unify_of_ground_eq common
    exact ⟨u, unified, unifier, holds'⟩
  apply useClause_ensures
  · intro fresh last newer _ clash
    obtain ⟨u, unified, _⟩ := unifies fresh newer
    rw [unified] at clash
    cases clash
  · intro fresh last u newer after bounded oldBody unified
    obtain ⟨u', unified', unifier, holds'⟩ := unifies fresh newer
    rw [unified, Option.some.injEq] at unified'
    subst unified'
    have merged := layered.merged_unify old (clause.head.ofAge_renamed fresh)
      newer unified after bounded
    have findsBody : ∀ goal ∈ clause.body.map (·.renamed fresh),
        Finds solve (goal.ground (values.overlay fresh instance')) := by
      intro goal member
      obtain ⟨written, inside, rfl⟩ := List.mem_map.mp member
      rw [Assignment.ground_renamed_overlay
        (plain written (List.mem_cons_of_mem _ inside))]
      exact body written inside
    refine (conjunction_finds extending merged oldBody (holds'.merged unifier)
      findsBody).weaken ?_
    rintro found last' _ ⟨s', inside, layered', others, holds'', agrees⟩
    exact ⟨s', inside, layered', others, holds'',
      (values.agrees_overlay instance' newer).trans agrees after⟩

end Clauses

/-- Whatever has a proof tree is found. -/
theorem solve_finds {kb : KnowledgeBase} (plain : kb.Plain)
    (settings : SearchSettings) {depth : Nat} {atom : Predicate}
    (tree : kb.ProofTree settings.maxDepth.toNat depth atom) (fuel : Nat) :
    Finds (solve kb settings fuel depth) atom := by
  induction tree generalizing fuel with
  | @node depth clause member instance' shallow children ih =>
      intro goal s generation values layered old holds same
      cases fuel with
      | zero => exact .endless
      | succ fuel =>
          have allowed : settings.allows depth := by
            simp [SearchSettings.allows, shallow]
          rw [solve_succ, if_pos allowed]
          have extending := solve_extending kb settings fuel (depth + 1)
          have name : clause.name = goal.name :=
            (congrArg Predicate.name same).symm
          refine .count_bind _ <| .each_exists
            (supports_lasting values generation)
            (fun clause _ drawn after => useClause_extending extending goal s
              drawn (layered.mono after) (old.mono after) clause)
            (KnowledgeBase.mem_named.mpr ⟨member, name⟩) ?_
          intro drawn after
          refine (useClause_finds extending (plain clause member)
            (fun goal inside => ih goal inside fuel) (layered.mono after)
            (old.mono after) holds same).weaken ?_
          rintro found last _ ⟨s', inside, layered', others, holds', agrees⟩
          exact ⟨s', inside, layered', others, holds',
            fun v known => agrees v (Nat.le_trans known after)⟩

end Search.Threaded

/-- The path of two edges has a proof tree by the recursive rule. -/
theorem Example.proofTree_path :
    paths.ProofTree 2 0 (query.ground fun _ => "c") := by
  refine .of_clause (List.mem_of_getElem? (i := 3) rfl)
    (fun v => if v = ⟨"X"⟩ then "a" else if v = ⟨"Y"⟩ then "b" else "c")
    (by decide) (by decide) (List.forall_mem_cons.mpr
      ⟨?edge, List.forall_mem_singleton.mpr ?path⟩)
  case edge =>
    exact .of_clause (List.mem_of_getElem? (i := 0) rfl) (fun _ => "")
      (by decide) (by decide) (List.forall_mem_nil _)
  case path =>
    refine .of_clause (List.mem_of_getElem? (i := 2) rfl)
      (fun v => if v = ⟨"X"⟩ then "b" else "c") (by decide) (by decide)
      (List.forall_mem_singleton.mpr ?_)
    exact .of_clause (List.mem_of_getElem? (i := 1) rfl) (fun _ => "")
      (by decide) (by decide) (List.forall_mem_nil _)

namespace Resolver

/--
A threaded query under a depth limit is answered, and every ground instance of
the query that has a proof tree within the limit is an instance of a solution.
-/
theorem resolve_complete (r : Resolver)
    (threaded : r.settings.conjunction = .threaded)
    (limited : r.settings.maxDepth ≠ 0) (plain : r.kb.Plain)
    {query : Predicate} (plainQuery : query.Plain) (path : Derivation)
    (values : Assignment)
    (tree : r.kb.ProofTree r.settings.maxDepth.toNat 0 (query.ground values)) :
    ∃ solutions after, r.resolve query path = some (solutions, after) ∧
      ∃ solution ∈ solutions, ∃ others : Assignment,
        solution.ground others = query.ground values := by
  obtain ⟨run, ended, after, answered⟩ :=
    resolve_ends threaded limited query path
  have found := (Search.Threaded.solve_finds plain r.settings tree r.kb.horizon
    query .empty r.generation values (Substitution.layered_empty _)
    (plainQuery.within _) (Substitution.holds_empty values) rfl run ended).2
  obtain ⟨s, member, _, others, holds, agrees⟩ := found
  refine ⟨_, after, answered, s.answer query, List.mem_map_of_mem member,
    others, ?_⟩
  rw [holds.ground_answer, agrees.ground_eq (plainQuery.within _)]

/-- The path of two edges is an instance of a solution. -/
theorem resolve_complete_path :
    ∃ solutions after,
      resolve { kb := Example.paths, settings := { maxDepth := 2 } }
        Example.query [] = some (solutions, after) ∧
      ∃ solution ∈ solutions, ∃ others : Assignment,
        solution.ground others = ⟨"path", [.const "a", .const "c"]⟩ :=
  resolve_complete { kb := Example.paths, settings := { maxDepth := 2 } } rfl
    (by decide) Example.plain_paths Example.plain_query [] (fun _ => "c")
    Example.proofTree_path

end Resolver

end HornLogic
