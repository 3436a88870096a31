import HornLogic.Proofs.Recast
import HornLogic.Proofs.Search.Answers
import HornLogic.Proofs.Search.Coupled
import Mathlib.Logic.Function.Basic

/-!
# Independence of variable names

The names of variables do not matter to a search.  With other names in the
clauses, chosen for each clause on its own, and in the query, the search on
branches goes on in step: the bindings of a branch are the same under other
names, those of each generation being named as the clause that was used for it.
-/

namespace HornLogic

open Variable (Naming recast)

namespace Branch

def relabel (b : Branch) (names : Variable ↪ Variable) : Branch :=
  ⟨b.bindings.relabel names, b.drawn⟩

/-- Unifying with a head under other names goes on in step. -/
theorem unify_relabel (b : Branch) (names : Variable ↪ Variable)
    (goal : Predicate) {head other : Predicate}
    (renamed : other.renamed (b.drawn + 1) =
      (head.renamed (b.drawn + 1)).relabel names) :
    (b.relabel names).unify (goal.relabel names) other =
      (b.unify goal head).map (·.relabel names) := by
  have heads : other.renamed ((b.relabel names).drawn + 1) =
      (head.renamed (b.drawn + 1)).relabel names := renamed
  rw [unify, heads, relabel, Substitution.resolve_relabel,
    Predicate.unify_relabel]
  rfl

theorem extend_relabel (b : Branch) (names : Variable ↪ Variable)
    (u : Substitution) :
    (b.relabel names).extend (u.relabel names) =
      (b.extend u).relabel names := by
  simp only [extend, relabel, Substitution.relabel_merged]

theorem relabel_recast_congr {b : Branch} (within : b.bindings.Within b.drawn)
    {namings others : Nat → Naming}
    (agree : ∀ generation, generation ≤ b.drawn →
      others generation = namings generation) :
    b.relabel (recast others) = b.relabel (recast namings) := by
  rw [relabel, relabel, within.relabel_recast_congr agree]

end Branch

def SearchLog.Alike (log other : SearchLog) : Prop :=
  log.stats = other.stats

theorem logCongruence_alike : LogCongruence SearchLog.Alike where
  refl _ := rfl
  append first second := congrArg₂ Stats.add first second
  under _ same := same

namespace Search

namespace Branching

/-- A branch and the one that corresponds to it under other names, where the
names up to the start are kept. -/
structure Recasts (start : Branch) (namings : Nat → Naming)
    (b other : Branch) : Prop where
  within : b.bindings.Within b.drawn
  grown : start.drawn ≤ b.drawn
  named : ∃ namings', other = b.relabel (recast namings') ∧
    ∀ generation, generation ≤ start.drawn →
      namings' generation = namings generation

private theorem Recasts.trans {start middle b other : Branch}
    {namings namings' : Nat → Naming} (grown : start.drawn ≤ middle.drawn)
    (agree : ∀ generation, generation ≤ start.drawn →
      namings' generation = namings generation)
    (recasts : Recasts middle namings' b other) :
    Recasts start namings b other := by
  obtain ⟨within, further, namings'', same, agree'⟩ := recasts
  refine ⟨within, Nat.le_trans grown further, namings'', same, ?_⟩
  intro generation old
  rw [agree' generation (Nat.le_trans old grown), agree generation old]

/-- Two searches for goals go on in step: under other names the second one
counts the same, and its results are those of the first. -/
def Renames (solve solve' : Predicate → Branch → Search (List Branch)) : Prop :=
  ∀ (goal : Predicate) (b : Branch) (namings : Nat → Naming),
    b.bindings.Within b.drawn → goal.Within b.drawn →
      Coupled SearchLog.Alike (List.Forall₂ (Recasts b namings)) (solve goal b)
        (solve' (goal.relabel (recast namings)) (b.relabel (recast namings)))

section Clauses

variable {solve solve' : Predicate → Branch → Search (List Branch)}
  (renames : Renames solve solve')
include renames

theorem conjunction_renames {goals : List Predicate} {b : Branch}
    {namings : Nat → Naming} (within : b.bindings.Within b.drawn)
    (old : ∀ goal ∈ goals, goal.Within b.drawn) :
    Coupled SearchLog.Alike (List.Forall₂ (Recasts b namings))
      (conjunction solve goals b)
      (conjunction solve' (goals.map (·.relabel (recast namings)))
        (b.relabel (recast namings))) := by
  induction goals generalizing b namings with
  | nil =>
      refine .pure logCongruence_alike (.cons ?_ .nil)
      exact ⟨within, Nat.le_refl _, namings, rfl, fun _ _ => rfl⟩
  | cons goal rest ih =>
      refine .bind logCongruence_alike
        (renames goal b namings within (old goal List.mem_cons_self)) ?_
      intro extended extended' paired
      refine .each logCongruence_alike (paired.imp ?_)
      rintro b₁ _ ⟨within₁, grown, namings₁, rfl, agree⟩
      -- The branch may name later generations in its own way; the goals that
      -- remain do not have any of them.
      have images : rest.map (·.relabel (recast namings)) =
          rest.map (·.relabel (recast namings₁)) := by
        apply List.map_congr_left
        intro goal inside
        exact ((old goal (List.mem_cons_of_mem _ inside)).relabel_recast_congr
          agree).symm
      rw [images]
      refine (ih within₁ fun goal inside =>
        (old goal (List.mem_cons_of_mem _ inside)).mono grown).weaken ?_
      intro found found' others
      exact others.imp fun _ _ recasts => recasts.trans grown agree

/-- What a clause proves goes on in step, where its generation is named as the
clause is. -/
private theorem proceed_renames {b : Branch} {namings : Nat → Naming}
    (within : b.bindings.Within b.drawn) {clause : Clause}
    (plain : clause.Plain) :
    Coupled SearchLog.Alike (List.Forall₂ (Recasts b namings))
      (proceed solve b clause)
      (proceed solve' (b.relabel (recast namings))
        (clause.relabel (namings b.drawn).toPerm)) := by
  cases clause with
  | fact fact =>
      rw [Clause.relabel, proceed, proceed]
      have alike : SearchLog.Alike ⟨[[fact]], { derivations := 1 }⟩
          ⟨[[fact.relabel (namings b.drawn).toPerm]], { derivations := 1 }⟩ :=
        rfl
      refine .write_bind logCongruence_alike (fun _ => rfl) (fun _ => rfl)
        alike ?_
      refine .pure logCongruence_alike (.cons ?_ .nil)
      exact ⟨within, Nat.le_refl _, namings, rfl, fun _ _ => rfl⟩
  | rule rule =>
      -- The goals of the body get their names before they are renamed, but
      -- might as well get them afterwards.
      have images : (rule.body.map (·.relabel (namings b.drawn).toPerm)).map
            (·.renamed b.drawn) =
          (rule.body.map (·.renamed b.drawn)).map
            (·.relabel (recast namings)) := by
        rw [List.map_map, List.map_map]
        apply List.map_congr_left
        intro goal member
        exact ((plain goal (List.mem_cons_of_mem _ member)).relabel_recast_renamed
          namings b.drawn).symm
      have old : ∀ goal ∈ rule.body.map (·.renamed b.drawn),
          goal.Within b.drawn := by
        intro goal member
        obtain ⟨written, _, rfl⟩ := List.mem_map.mp member
        exact (written.ofAge_renamed _).within (Nat.le_refl _)
      have body : Coupled SearchLog.Alike (List.Forall₂ (Recasts b namings))
          (conjunction solve (rule.body.map (·.renamed b.drawn)) b) _ :=
        conjunction_renames renames within old
      rw [← images] at body
      refine .bind logCongruence_alike (body.under_heads fun _ _ same => same) ?_
      intro branches branches' paired
      refine .write_bind logCongruence_alike
        (Threaded.recordEach_run rule.head _) (Threaded.recordEach_run _ _) ?_
        (.pure logCongruence_alike paired)
      simp [SearchLog.Alike, paired.length_eq]

theorem useClause_renames {goal : Predicate} {b : Branch}
    {namings : Nat → Naming} (within : b.bindings.Within b.drawn)
    (old : goal.Within b.drawn) {clause : Clause} (plain : clause.Plain)
    (naming : Naming) :
    Coupled SearchLog.Alike (List.Forall₂ (Recasts b namings))
      (useClause solve goal b clause)
      (useClause solve' (goal.relabel (recast namings))
        (b.relabel (recast namings)) (clause.relabel naming.toPerm)) := by
  -- The generation of the clause is named as the clause is.
  have agree : ∀ generation, generation ≤ b.drawn →
      Function.update namings (b.drawn + 1) naming generation =
        namings generation := fun generation older =>
    Function.update_of_ne (Nat.ne_of_lt (Nat.lt_succ_of_le older)) _ _
  have here : Function.update namings (b.drawn + 1) naming (b.drawn + 1) =
      naming := Function.update_self ..
  rw [← old.relabel_recast_congr agree, ← Branch.relabel_recast_congr within agree]
  generalize Function.update namings (b.drawn + 1) naming = namings₁
    at agree here
  subst here
  have step := b.unify_relabel (recast namings₁) goal
    ((plain _ List.mem_cons_self).relabel_recast_renamed namings₁ _).symm
  rw [useClause, useClause, Clause.head_relabel, step, Option.isSome_map]
  refine .count_bind logCongruence_alike _ ?_
  cases unified : b.unify goal clause.head with
  | none => exact .pure logCongruence_alike .nil
  | some u =>
      dsimp only [Option.map_some]
      rw [Branch.extend_relabel]
      refine (proceed_renames renames
        (Branch.within_extend within old unified) plain).weaken ?_
      intro found found' paired
      exact paired.imp fun _ _ recasts => recasts.trans (Nat.le_succ _) agree

end Clauses

private theorem recast_named {kb other : KnowledgeBase}
    (recasts : List.Forall₂ Clause.Recast kb.toList other.toList)
    (name : String) :
    List.Forall₂ Clause.Recast (kb.named name) (other.named name) := by
  refine List.rel_filter ?_ recasts
  rintro clause _ ⟨_, naming, rfl⟩
  simp only [Clause.name_relabel]

/-- The search in recast clauses goes on in step. -/
theorem solve_renames {kb other : KnowledgeBase}
    (recasts : List.Forall₂ Clause.Recast kb.toList other.toList)
    (settings : SearchSettings) (fuel fuel' depth : Nat) :
    Renames (solve kb settings fuel depth) (solve other settings fuel' depth) := by
  induction fuel generalizing fuel' depth with
  | zero => exact fun _ _ _ _ _ => .endless_left _
  | succ fuel ih =>
      intro goal b namings within old
      cases fuel' with
      | zero => exact .endless_right _
      | succ fuel' =>
          rw [solve, solve]
          split
          · refine .count_bind logCongruence_alike _ <|
              .each logCongruence_alike ((recast_named recasts goal.name).imp ?_)
            rintro clause _ ⟨plain, naming, rfl⟩
            exact useClause_renames (ih fuel' (depth + 1)) within old plain
              naming
          · exact .count_bind logCongruence_alike _
              (.pure logCongruence_alike .nil)

section Answers

variable {query : Predicate} {names : Variable → Variable}
  {namings : Nat → Naming}
  (agrees : ∀ v, .var v ∈ query.args → recast namings v = names v)
include agrees

/-- Answers under other names are the answers with other names. -/
theorem Recasts.answer_eq {start b other : Branch}
    (within : query.Within start.drawn)
    (recasts : Recasts start namings b other) :
    other.bindings.answer (query.relabel names) =
      (b.bindings.answer query).relabel names := by
  obtain ⟨_, _, namings', rfl, agree⟩ := recasts
  have same : ∀ v, .var v ∈ query.args → recast namings' v = names v := by
    intro v member
    rw [← agrees v member]
    exact Variable.recast_congr fun generation old =>
      agree generation (Nat.le_trans old (within v member))
  rw [← Predicate.relabel_congr same, Branch.relabel,
    Substitution.answer_relabel]
  exact Predicate.relabel_congr fun v member =>
    same v (Substitution.mem_of_mem_answer member)

theorem map_answer_recasts {start : Branch} (within : query.Within start.drawn)
    {branches others : List Branch}
    (paired : List.Forall₂ (Recasts start namings) branches others) :
    others.map (·.bindings.answer (query.relabel names)) =
      (branches.map (·.bindings.answer query)).map (·.relabel names) := by
  induction paired with
  | nil => rfl
  | cons recasts _ ih =>
      rw [List.map_cons, List.map_cons, List.map_cons, ih,
        recasts.answer_eq agrees within]

end Answers

end Branching

end Search

namespace Example

/-- The paths with other names in each rule, both of which now have the name of
the variable in the query. -/
def renamedPaths : KnowledgeBase :=
  ⟨[.fact ⟨"edge", [.const "a", .const "b"]⟩,
    .fact ⟨"edge", [.const "b", .const "c"]⟩,
    .rule ⟨⟨"path", [.var ⟨"W"⟩, .var ⟨"Y"⟩]⟩,
      [⟨"edge", [.var ⟨"W"⟩, .var ⟨"Y"⟩]⟩]⟩,
    .rule ⟨⟨"path", [.var ⟨"X"⟩, .var ⟨"W"⟩]⟩,
      [⟨"edge", [.var ⟨"X"⟩, .var ⟨"Y"⟩]⟩,
        ⟨"path", [.var ⟨"Y"⟩, .var ⟨"W"⟩]⟩]⟩]⟩

theorem variant_paths :
    List.Forall₂ Clause.Variant paths.toList renamedPaths.toList :=
  .cons ⟨id, Set.injOn_id _, rfl⟩ <| .cons ⟨id, Set.injOn_id _, rfl⟩ <|
    .cons ⟨Equiv.swap ⟨"X"⟩ ⟨"W"⟩, (Equiv.injective _).injOn, by decide⟩ <|
    .cons ⟨Equiv.swap ⟨"Z"⟩ ⟨"W"⟩, (Equiv.injective _).injOn, by decide⟩ .nil

end Example

namespace Resolver

open Search

/-- The search on branches under other names finds the same up to the names
and counts the same. -/
theorem branchSearch_recast {kb other : KnowledgeBase}
    (recasts : List.Forall₂ Clause.Recast kb.toList other.toList)
    (limit : UInt64) {query : Predicate} (plain : query.Plain)
    {names : Variable → Variable} {namings : Nat → Naming}
    (agrees : ∀ v, .var v ∈ query.args → recast namings v = names v) :
    Coupled SearchLog.Alike
      (fun found renamed => renamed = found.map (·.relabel names))
      (branchSearch kb ⟨limit, .threaded⟩ query)
      (branchSearch other ⟨limit, .threaded⟩ (query.relabel names)) := by
  have within : query.Within Branch.start.drawn := plain.within _
  have renames := Branching.solve_renames recasts ⟨limit, .threaded⟩
    kb.horizon other.horizon 0 query .start namings
    (Substitution.within_empty _) within
  rw [Predicate.relabel_congr agrees] at renames
  refine .bind logCongruence_alike renames fun branches others paired => ?_
  exact .pure logCongruence_alike
    (Branching.map_answer_recasts agrees within paired)

/--
The names of variables do not matter.  With other names in each clause and in
the query, no two of which become the same in it, a resolver under a depth limit
reports the same solutions under the new names of the query, in the same order,
and the same statistics.
-/
theorem answer_of_variants {kb other : KnowledgeBase} (plain : kb.Plain)
    (plain' : other.Plain)
    (variants : List.Forall₂ Clause.Variant kb.toList other.toList)
    {limit : UInt64} (limited : limit ≠ 0) {query : Predicate}
    (asked : query.Plain) {names : Variable → Variable}
    (injective : Set.InjOn names {v | v ∈ query.vars})
    (asked' : (query.relabel names).Plain) :
    ∃ outcome renamed,
      answer { kb := kb, settings := ⟨limit, .threaded⟩ } query =
        some outcome ∧
      answer { kb := other, settings := ⟨limit, .threaded⟩ }
        (query.relabel names) = some renamed ∧
      renamed.solutions = outcome.solutions.map (·.relabel names) ∧
      renamed.stats = outcome.stats := by
  obtain ⟨namings, agrees⟩ := asked.exists_recast asked' injective
  have recasts := Clause.forall₂_recast variants plain plain'
  have limited' : (SearchSettings.mk limit .threaded).maxDepth ≠ 0 := limited
  obtain ⟨run, ended, answered⟩ := exists_answer kb limited' query
  obtain ⟨run', ended', answered'⟩ :=
    exists_answer other limited' (query.relabel names)
  obtain ⟨alike, solutions⟩ := (search_coupled asked asked'
    (branchSearch_recast recasts limit asked agrees)).both ended ended'
  refine ⟨_, _, answered, answered', solutions, ?_⟩
  rw [resolution, resolution, solutions, List.length_map, ← alike]

/-- The paths are found under other names, where the variable in the query has
the name of one in a rule. -/
theorem answer_of_variants_paths :
    ∃ outcome renamed,
      answer { kb := Example.paths, settings := ⟨2, .threaded⟩ }
        Example.query = some outcome ∧
      answer { kb := Example.renamedPaths, settings := ⟨2, .threaded⟩ }
        (Example.query.relabel (Equiv.swap ⟨"W"⟩ ⟨"X"⟩)) = some renamed ∧
      renamed.solutions =
        outcome.solutions.map (·.relabel (Equiv.swap ⟨"W"⟩ ⟨"X"⟩)) ∧
      renamed.stats = outcome.stats :=
  answer_of_variants Example.plain_paths (by decide) Example.variant_paths
    (by decide) Example.plain_query (Equiv.injective _).injOn (by decide)

end Resolver

end HornLogic
