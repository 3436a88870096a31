import HornLogic.Proofs.Search.Inclusion

/-!
# Depth limits

A lower depth limit only prunes: what is found under it is found under a
greater one.  A search that gave up no goal is the search under every greater
limit and without a limit, step by step and down to the generations it draws.
-/

namespace HornLogic.Search

variable {α β : Type}

/-- Where the narrow search ends without giving up a goal, the wide search
ends in the same way. -/
def Covers (wide narrow : Search α) : Prop :=
  ∀ generation run, narrow generation = some run →
    run.log.stats.cutoffs = 0 → wide generation = some run

namespace Covers

theorem refl (search : Search α) : Covers search search :=
  fun _ _ ended _ => ended

theorem bind {wide narrow : Search α} {next next' : α → Search β}
    (first : Covers wide narrow) (second : ∀ a, Covers (next a) (next' a)) :
    Covers (wide >>= next) (narrow >>= next') := by
  intro generation run ended uncut
  obtain ⟨start, rest, hstart, hrest, rfl⟩ := bind_eq_some.mp ended
  have total : start.log.stats.cutoffs + rest.log.stats.cutoffs = 0 := uncut
  exact bind_eq_some.mpr ⟨start, rest, first _ _ hstart (by omega),
    second _ _ _ hrest (by omega), rfl⟩

/-- The same step stands in front of both searches. -/
theorem bind_refl (step : Search α) {next next' : α → Search β}
    (second : ∀ a, Covers (next a) (next' a)) :
    Covers (step >>= next) (step >>= next') :=
  (refl step).bind second

theorem under {wide narrow : Search α} (head : Predicate)
    (covers : Covers wide narrow) :
    Covers (under head wide) (under head narrow) := by
  intro generation run ended uncut
  rw [Search.under, Option.map_eq_some_iff] at ended
  obtain ⟨inner, hinner, rfl⟩ := ended
  rw [Search.under, covers _ _ hinner uncut]
  rfl

theorem each {search search' : α → Search (List β)}
    (covers : ∀ a, Covers (search a) (search' a)) (inputs : List α) :
    Covers (each search inputs) (each search' inputs) := by
  induction inputs with
  | nil => exact .refl _
  | cons a rest ih =>
      exact (covers a).bind fun _ => ih.bind fun _ => .refl _

/-- A search that starts with giving up a goal is covered by every search. -/
theorem of_cutoff (wide : Search α) (next : Unit → Search α) :
    Covers wide (count { cutoffs := 1 } >>= next) := by
  intro generation run ended uncut
  obtain ⟨start, rest, hstart, hrest, rfl⟩ := bind_eq_some.mp ended
  cases hstart
  have total : 1 + rest.log.stats.cutoffs = 0 := uncut
  omega

end Covers

/-! ## Threaded search -/

namespace Threaded

section Clauses

variable {solve solve' : Predicate → Substitution → Search (List Substitution)}
  (covers : ∀ goal bindings, Covers (solve goal bindings) (solve' goal bindings))
include covers

theorem conjunction_covers (goals : List Predicate) (bindings : Substitution) :
    Covers (conjunction solve goals bindings)
      (conjunction solve' goals bindings) := by
  induction goals generalizing bindings with
  | nil => exact .refl _
  | cons goal rest ih =>
      exact (covers goal bindings).bind fun extended => .each ih extended

theorem useClause_covers (goal : Predicate) (bindings : Substitution)
    (clause : Clause) :
    Covers (useClause solve goal bindings clause)
      (useClause solve' goal bindings clause) := by
  cases clause with
  | fact fact => exact .refl _
  | rule rule =>
      rw [useClause, useClause, useRule_eq, useRule_eq]
      refine .bind_refl _ fun generation => .bind_refl _ fun _ => ?_
      cases goal.unify (rule.head.renamed generation) with
      | none => exact .refl _
      | some unifier =>
          exact ((conjunction_covers covers _ _).under _).bind fun _ => .refl _

end Clauses

theorem solve_covers (kb : KnowledgeBase) {settings wider : SearchSettings}
    (deeper : ∀ depth, settings.allows depth → wider.allows depth)
    (fuel depth : Nat) (goal : Predicate) (bindings : Substitution) :
    Covers (solve kb wider fuel depth goal bindings)
      (solve kb settings fuel depth goal bindings) := by
  induction fuel generalizing depth goal bindings with
  | zero => exact .refl _
  | succ fuel ih =>
      rw [solve_succ kb settings, solve_succ kb wider]
      by_cases allowed : settings.allows depth
      · rw [if_pos allowed, if_pos (deeper depth allowed)]
        exact .bind_refl _ fun _ =>
          .each (useClause_covers (ih (depth + 1)) _ _) _
      · rw [if_neg allowed]
        exact .of_cutoff _ _

end Threaded

/-! ## Single-pass search -/

namespace SinglePass

section Clauses

variable {solve solve' : Predicate → Search (List Predicate)}
  (covers : ∀ query, Covers (solve query) (solve' query))
include covers

theorem allProved_covers (goals : List Predicate) :
    Covers (allProved solve goals) (allProved solve' goals) := by
  induction goals with
  | nil => exact .refl _
  | cons goal rest ih =>
      refine (covers goal).bind fun found => ?_
      cases found with
      | nil => exact .refl _
      | cons first others => exact ih

theorem useClause_covers (query : Predicate) (clause : Clause) :
    Covers (useClause solve query clause) (useClause solve' query clause) := by
  rw [useClause_eq, useClause_eq]
  refine .bind_refl _ fun _ => ?_
  cases query.unify clause.head with
  | none => exact .refl _
  | some unifier =>
      cases clause with
      | fact fact => exact .refl _
      | rule rule =>
          exact ((allProved_covers covers _).under _).bind fun _ => .refl _

end Clauses

theorem solve_covers (kb : KnowledgeBase) {settings wider : SearchSettings}
    (deeper : ∀ depth, settings.allows depth → wider.allows depth)
    (fuel depth : Nat) (query : Predicate) :
    Covers (solve kb wider fuel depth query)
      (solve kb settings fuel depth query) := by
  induction fuel generalizing depth query with
  | zero => exact .refl _
  | succ fuel ih =>
      rw [solve_succ kb settings, solve_succ kb wider]
      by_cases allowed : settings.allows depth
      · rw [if_pos allowed, if_pos (deeper depth allowed)]
        exact .bind_refl _ fun _ =>
          .each (useClause_covers (ih (depth + 1)) query) _
      · rw [if_neg allowed]
        exact .of_cutoff _ _

end SinglePass

end HornLogic.Search

namespace HornLogic.Resolver

open Search

/-- A search under a limit that gave up no goal is the search under a greater
limit. -/
theorem search_covers (kb : KnowledgeBase) {settings wider : SearchSettings}
    (deeper : ∀ depth, settings.allows depth → wider.allows depth)
    (mode : wider.conjunction = settings.conjunction) (query : Predicate) :
    Covers (search kb wider query) (search kb settings query) := by
  rw [search, search, mode]
  cases settings.conjunction with
  | threaded =>
      exact (Threaded.solve_covers kb deeper _ 0 query .empty).bind
        fun _ => .refl _
  | singlePass => exact SinglePass.solve_covers kb deeper _ 0 query

/-- A fresh resolver that gave up no goal reports the same under a greater
limit. -/
theorem answer_covers (kb : KnowledgeBase) {settings wider : SearchSettings}
    (deeper : ∀ depth, settings.allows depth → wider.allows depth)
    (mode : wider.conjunction = settings.conjunction) {query : Predicate}
    {outcome : Resolution}
    (answered : answer { kb := kb, settings := settings } query = some outcome)
    (uncut : outcome.stats.cutoffs = 0) :
    answer { kb := kb, settings := wider } query = some outcome := by
  rw [answer_fresh, Option.map_eq_some_iff] at answered
  obtain ⟨run, ended, rfl⟩ := answered
  rw [answer_fresh, search_covers kb deeper mode query 0 run ended uncut]
  rfl

/--
A lower depth limit only prunes: the solutions of a plain query and the
recorded derivations are sublists of those under a greater limit.  If no goal
was given up, everything that is reported is the same under every greater
limit and without a limit, where the search ends as well.
-/
theorem answer_sublist_of_limit (kb : KnowledgeBase) (mode : Conjunction)
    {limit greater : UInt64} (limited : limit ≠ 0) (further : limit ≤ greater)
    {query : Predicate} (plain : query.Plain) :
    ∃ less more,
      answer { kb := kb, settings := ⟨limit, mode⟩ } query = some less ∧
      answer { kb := kb, settings := ⟨greater, mode⟩ } query = some more ∧
      less.solutions.Sublist more.solutions ∧
      less.derivations.Sublist more.derivations ∧
      (less.stats.cutoffs = 0 → more = less ∧
        answer { kb := kb, settings := ⟨0, mode⟩ } query = some less) := by
  have order : limit.toNat ≤ greater.toNat := UInt64.le_iff_toNat_le.mp further
  have positive : limit.toNat ≠ 0 := fun zero =>
    limited (UInt64.toNat_inj.mp zero)
  have limited' : greater ≠ 0 := by
    rintro rfl
    exact positive (Nat.le_zero.mp order)
  have deeper : ∀ depth, SearchSettings.allows ⟨limit, mode⟩ depth →
      SearchSettings.allows ⟨greater, mode⟩ depth := by
    intro depth allowed
    have shallow : depth ≤ limit.toNat := by
      simpa [SearchSettings.allows, limited] using allowed
    simp [SearchSettings.allows, Nat.le_trans shallow order]
  have unlimited : ∀ depth, SearchSettings.allows ⟨limit, mode⟩ depth →
      SearchSettings.allows ⟨0, mode⟩ depth :=
    fun _ _ => rfl
  obtain ⟨less, more, hless, hmore, solutions, derivations⟩ :=
    answer_included (.refl kb.toList) deeper rfl plain limited limited'
  refine ⟨less, more, hless, hmore, solutions, derivations, fun uncut => ?_⟩
  have same := answer_covers kb deeper rfl hless uncut
  rw [hmore, Option.some.injEq] at same
  exact ⟨same, answer_covers kb unlimited rfl hless uncut⟩

/-- Three levels are enough to find all paths, so that a limit of five levels
and no limit at all make no difference. -/
theorem answer_sublist_of_limit_paths :
    ∃ outcome,
      answer { kb := Example.paths, settings := ⟨3, .threaded⟩ } Example.query =
        some outcome ∧
      outcome.stats.cutoffs = 0 ∧
      answer { kb := Example.paths, settings := ⟨5, .threaded⟩ } Example.query =
        some outcome ∧
      answer { kb := Example.paths, settings := ⟨0, .threaded⟩ } Example.query =
        some outcome := by
  obtain ⟨less, more, hless, hmore, _, _, complete⟩ :=
    answer_sublist_of_limit Example.paths .threaded (by decide : (3 : UInt64) ≠ 0)
      (by decide : (3 : UInt64) ≤ 5) Example.plain_query
  have uncut : (answer { kb := Example.paths, settings := ⟨3, .threaded⟩ }
      Example.query).map (·.stats.cutoffs) = some 0 := by
    decide +kernel
  rw [hless, Option.map_some, Option.some.injEq] at uncut
  obtain ⟨rfl, unlimited⟩ := complete uncut
  exact ⟨more, hless, uncut, hmore, unlimited⟩

example :
    (answer { kb := Example.paths, settings := ⟨1, .threaded⟩ }
      Example.query).map (·.solutions) =
        some [⟨"path", [.const "a", .const "b"]⟩] := by
  decide +kernel

end HornLogic.Resolver
