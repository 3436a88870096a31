import HornLogic.Proofs.Search.Answers
import HornLogic.Proofs.Search.Coupled

/-!
# Smaller searches

A search with fewer clauses and a lower depth limit finds less: its solutions
and its derivations are a sublist of those of the larger search.  On branches
both searches number generations alike, so that what the smaller one finds
stands unchanged among the results of the larger one.
-/

namespace HornLogic

/-- The derivations of one log are among those of the other, in order. -/
def SearchLog.Included (smaller larger : SearchLog) : Prop :=
  smaller.derivations.Sublist larger.derivations

theorem logCongruence_included : LogCongruence SearchLog.Included where
  refl log := List.Sublist.refl log.derivations
  append first second := List.Sublist.append first second
  under path included := List.Sublist.map (path ++ ·) included

namespace Search

variable {α β : Type}

abbrev Included (smaller larger : Search (List α)) : Prop :=
  Coupled SearchLog.Included List.Sublist smaller larger

/-- A search that only counts and finds nothing is included in every search. -/
theorem included_of_count (stats : Stats) (larger : Search (List α)) :
    Included (count stats >>= fun _ => pure []) larger where
  both ended _ := by
    cases ended
    exact ⟨List.nil_sublist _, List.nil_sublist _⟩

/-- Searches for the elements of a sublist, each included in the search for the
same element of the list, are included in the searches for the list. -/
theorem each_included {search search' : α → Search (List β)}
    (elements : ∀ a, Included (search a) (search' a)) {inputs inputs' : List α}
    (sublist : inputs.Sublist inputs') :
    Included (each search inputs) (each search' inputs') := by
  induction sublist with
  | slnil => exact .pure logCongruence_included (.refl _)
  | cons a rest ih =>
      refine ⟨fun ended ended' => ?_⟩
      obtain ⟨found, others, _, hothers, rfl⟩ := bind_eq_some.mp ended'
      obtain ⟨more, last, hmore, hlast, rfl⟩ := bind_eq_some.mp hothers
      cases hlast
      obtain ⟨derivations, values⟩ := ih.both ended hmore
      rw [SearchLog.append_empty]
      exact ⟨derivations.trans (List.sublist_append_right ..),
        values.trans (List.sublist_append_right ..)⟩
  | cons_cons a rest ih =>
      refine .bind logCongruence_included (elements a) fun _ _ first => ?_
      refine .bind logCongruence_included ih fun _ _ others => ?_
      exact .pure logCongruence_included (first.append others)

/-! ## Branching search -/

namespace Branching

private theorem recordEach_included {head : Predicate}
    {proofs proofs' : List Substitution} {branches branches' : List Branch}
    (fewer : proofs.length ≤ proofs'.length)
    (sublist : branches.Sublist branches') :
    Included (Threaded.recordEach head proofs >>= fun _ => pure branches)
      (Threaded.recordEach head proofs' >>= fun _ => pure branches') where
  both ended ended' := by
    obtain ⟨_, last, hfirst, hlast, rfl⟩ := bind_eq_some.mp ended
    obtain ⟨_, last', hfirst', hlast', rfl⟩ := bind_eq_some.mp ended'
    rw [Threaded.recordEach_run] at hfirst hfirst'
    cases hfirst
    cases hfirst'
    cases hlast
    cases hlast'
    rw [SearchLog.append_empty, SearchLog.append_empty]
    exact ⟨(List.replicate_sublist_replicate _).mpr fewer, sublist⟩

section Clauses

variable {solve solve' : Predicate → Branch → Search (List Branch)}
  (included : ∀ goal b, Included (solve goal b) (solve' goal b))
include included

theorem conjunction_included (goals : List Predicate) (b : Branch) :
    Included (conjunction solve goals b) (conjunction solve' goals b) := by
  induction goals generalizing b with
  | nil => exact .pure logCongruence_included (.refl _)
  | cons goal rest ih =>
      exact .bind logCongruence_included (included goal b) fun _ _ sublist =>
        each_included ih sublist

theorem useClause_included (goal : Predicate) (b : Branch) (clause : Clause) :
    Included (useClause solve goal b clause) (useClause solve' goal b clause) := by
  refine .count_bind logCongruence_included _ ?_
  cases b.unify goal clause.head with
  | none => exact .pure logCongruence_included (.refl _)
  | some u =>
      cases clause with
      | fact fact =>
          exact .record_bind logCongruence_included _ <|
            .pure logCongruence_included (.refl _)
      | rule rule =>
          refine .bind logCongruence_included (.under logCongruence_included _
            (conjunction_included included _ _)) fun branches branches' sublist => ?_
          refine recordEach_included ?_ sublist
          simpa using sublist.length_le

end Clauses

theorem solve_included {kb larger : KnowledgeBase}
    (clauses : kb.toList.Sublist larger.toList)
    {settings wider : SearchSettings}
    (deeper : ∀ depth, settings.allows depth → wider.allows depth)
    (fuel fuel' depth : Nat) (goal : Predicate) (b : Branch) :
    Included (solve kb settings fuel depth goal b)
      (solve larger wider fuel' depth goal b) := by
  induction fuel generalizing fuel' depth goal b with
  | zero => exact .endless_left _
  | succ fuel ih =>
      cases fuel' with
      | zero => exact .endless_right _
      | succ fuel' =>
          rw [solve, solve]
          split
          · rename_i allowed
            rw [if_pos (deeper depth allowed)]
            refine .count_bind logCongruence_included _ <| each_included
              (useClause_included (ih fuel' (depth + 1)) goal b) ?_
            exact clauses.filter _
          · exact included_of_count _ _

end Branching

/-! ## Single-pass search -/

namespace SinglePass

section Clauses

variable {solve solve' : Predicate → Search (List Predicate)}
  (included : ∀ query, Included (solve query) (solve' query))
include included

/-- A body that is proved by the smaller search is proved by the larger one,
which tries at least as many goals. -/
theorem allProved_included (goals : List Predicate) :
    Coupled SearchLog.Included (fun proved proved' : Bool => proved → proved')
      (allProved solve goals) (allProved solve' goals) := by
  induction goals with
  | nil => exact .pure logCongruence_included fun proved => proved
  | cons goal rest ih =>
      refine .bind logCongruence_included (included goal)
        fun found found' sublist => ?_
      cases found with
      | nil =>
          refine ⟨fun ended _ => ?_⟩
          cases ended
          exact ⟨List.nil_sublist _, fun proved => nomatch proved⟩
      | cons first others =>
          cases found' with
          | nil => cases sublist
          | cons first' others' => exact ih

theorem useClause_included (query : Predicate) (clause : Clause) :
    Included (useClause solve query clause) (useClause solve' query clause) := by
  rw [useClause_eq, useClause_eq]
  refine .count_bind logCongruence_included _ ?_
  cases query.unify clause.head with
  | none => exact .pure logCongruence_included (.refl _)
  | some unifier =>
      cases clause with
      | fact fact =>
          exact .record_bind logCongruence_included _ <|
            .pure logCongruence_included (.refl _)
      | rule rule =>
          refine .bind logCongruence_included (.under logCongruence_included _
            (allProved_included included _)) fun proved proved' still => ?_
          cases proved with
          | false =>
              refine ⟨fun ended _ => ?_⟩
              cases ended
              exact ⟨List.nil_sublist _, List.nil_sublist _⟩
          | true =>
              rw [still rfl]
              exact .record_bind logCongruence_included _ <|
                .pure logCongruence_included (.refl _)

end Clauses

theorem solve_included {kb larger : KnowledgeBase}
    (clauses : kb.toList.Sublist larger.toList)
    {settings wider : SearchSettings}
    (deeper : ∀ depth, settings.allows depth → wider.allows depth)
    (fuel fuel' depth : Nat) (query : Predicate) :
    Included (solve kb settings fuel depth query)
      (solve larger wider fuel' depth query) := by
  induction fuel generalizing fuel' depth query with
  | zero => exact .endless_left _
  | succ fuel ih =>
      cases fuel' with
      | zero => exact .endless_right _
      | succ fuel' =>
          rw [solve_succ, solve_succ]
          split
          · rename_i allowed
            rw [if_pos (deeper depth allowed)]
            refine .count_bind logCongruence_included _ <| each_included
              (useClause_included (ih fuel' (depth + 1)) query) ?_
            exact clauses.filter _
          · exact included_of_count _ _

end SinglePass

end Search

namespace Resolver

open Search

section Queries

variable {kb larger : KnowledgeBase}
  (clauses : kb.toList.Sublist larger.toList)
  {settings wider : SearchSettings}
  (deeper : ∀ depth, settings.allows depth → wider.allows depth)
  (mode : wider.conjunction = settings.conjunction)
  {query : Predicate}
include clauses deeper mode

theorem branchSearch_included (query : Predicate) :
    Included (branchSearch kb settings query)
      (branchSearch larger wider query) := by
  rw [branchSearch, branchSearch, mode]
  cases settings.conjunction with
  | threaded =>
      refine .bind logCongruence_included (Branching.solve_included clauses
        deeper _ _ 0 query .start) fun branches branches' sublist => ?_
      exact .pure logCongruence_included (sublist.map _)
  | singlePass => exact SinglePass.solve_included clauses deeper _ _ 0 query

/-- The smaller search for a plain query is included in the larger one. -/
theorem search_included (plain : query.Plain) :
    Included (search kb settings query) (search larger wider query) :=
  search_coupled plain plain (branchSearch_included clauses deeper mode query)

/-- Under depth limits both searches end, and the larger one reports at least
what the smaller one does. -/
theorem answer_included (plain : query.Plain)
    (limited : settings.maxDepth ≠ 0) (limited' : wider.maxDepth ≠ 0) :
    ∃ less more,
      answer { kb := kb, settings := settings } query = some less ∧
      answer { kb := larger, settings := wider } query = some more ∧
      less.solutions.Sublist more.solutions ∧
      less.derivations.Sublist more.derivations := by
  obtain ⟨run, ended, hless⟩ := exists_answer kb limited query
  obtain ⟨run', ended', hmore⟩ := exists_answer larger limited' query
  obtain ⟨derivations, solutions⟩ :=
    (search_included clauses deeper mode plain).both ended ended'
  exact ⟨_, _, hless, hmore, solutions, derivations⟩

end Queries

/--
Adding clauses anywhere takes nothing away: the solutions of a plain query and
the recorded derivations are sublists of those for the larger knowledge base.
-/
theorem answer_sublist_of_clauses {kb larger : KnowledgeBase}
    (clauses : kb.toList.Sublist larger.toList) {settings : SearchSettings}
    (limited : settings.maxDepth ≠ 0) {query : Predicate}
    (plain : query.Plain) :
    ∃ less more,
      answer { kb := kb, settings := settings } query = some less ∧
      answer { kb := larger, settings := settings } query = some more ∧
      less.solutions.Sublist more.solutions ∧
      less.derivations.Sublist more.derivations :=
  answer_included clauses (fun _ allowed => allowed) rfl plain limited limited

/-- Without the recursive rule the paths are among those found with it. -/
theorem answer_sublist_of_clauses_paths :
    (Example.paths.toList.take 3).Sublist Example.paths.toList ∧
    ∃ less more,
      answer { kb := ⟨Example.paths.toList.take 3⟩
               settings := { maxDepth := 2 } } Example.query = some less ∧
      answer { kb := Example.paths, settings := { maxDepth := 2 } }
        Example.query = some more ∧
      less.solutions.Sublist more.solutions ∧
      less.derivations.Sublist more.derivations :=
  ⟨List.take_sublist .., answer_sublist_of_clauses (List.take_sublist ..)
    (by decide) Example.plain_query⟩

example :
    (answer { kb := ⟨Example.paths.toList.take 3⟩
              settings := { maxDepth := 2 } } Example.query).map
        (·.solutions) = some [⟨"path", [.const "a", .const "b"]⟩] ∧
      (answer { kb := Example.paths, settings := { maxDepth := 2 } }
        Example.query).map (·.solutions) =
        some [⟨"path", [.const "a", .const "b"]⟩,
          ⟨"path", [.const "a", .const "c"]⟩] := by
  decide +kernel

end Resolver

end HornLogic
