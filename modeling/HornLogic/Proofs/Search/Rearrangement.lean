import HornLogic.Proofs.Search.Answers
import Mathlib.Data.List.Perm.Basic

/-!
# Rearranged knowledge bases

The order of the clauses decides only the order in which things are found.
Two searches rearrange each other when their results and their derivations
are the same up to their order and they count the same.  What a search collects
for the elements of a list is put together from one run for each element, so
the elements may be taken in any order.
-/

namespace HornLogic

/-- The logs have the same derivations up to their order and count the same. -/
structure SearchLog.Rearranges (log log' : SearchLog) : Prop where
  derivations : log.derivations.Perm log'.derivations
  stats : log.stats = log'.stats

theorem logCongruence_rearranges : LogCongruence SearchLog.Rearranges where
  refl _ := ⟨.refl _, rfl⟩
  append first second :=
    ⟨first.derivations.append second.derivations,
      congrArg₂ Stats.add first.stats second.stats⟩
  under path related := ⟨related.derivations.map (path ++ ·), related.stats⟩

namespace SearchLog

theorem Rearranges.trans {first second third : SearchLog}
    (left : first.Rearranges second) (right : second.Rearranges third) :
    first.Rearranges third :=
  ⟨left.derivations.trans right.derivations, left.stats.trans right.stats⟩

/-- Two parts of a search may be exchanged. -/
theorem rearranges_exchange (first second rest : SearchLog) :
    (first ++ (second ++ rest)).Rearranges (second ++ (first ++ rest)) := by
  constructor
  · change (first.derivations ++ (second.derivations ++ rest.derivations)).Perm
      (second.derivations ++ (first.derivations ++ rest.derivations))
    rw [← List.append_assoc, ← List.append_assoc]
    exact List.perm_append_comm.append_right _
  · change Stats.add first.stats (Stats.add second.stats rest.stats) =
      Stats.add second.stats (Stats.add first.stats rest.stats)
    simp only [Stats.add, Stats.mk.injEq]
    omega

/-- The parts of a search may be taken in any order. -/
theorem concat_perm {logs logs' : List SearchLog} (order : logs.Perm logs') :
    (concat logs).Rearranges (concat logs') := by
  induction order with
  | nil => exact logCongruence_rearranges.refl _
  | cons log _ ih =>
      exact logCongruence_rearranges.append (logCongruence_rearranges.refl log) ih
  | swap first second rest => exact rearranges_exchange second first (concat rest)
  | trans _ _ left right => exact left.trans right

end SearchLog

namespace Search

variable {α β : Type}

abbrev Rearranges (left right : Search (List α)) : Prop :=
  Coupled SearchLog.Rearranges List.Perm left right

section Elements

variable {search search' : α → Search (List β)}
  (elements : ∀ a, Rearranges (search a) (search' a)) {inputs : List α}
include elements

/-- Runs for the same elements rearrange each other when put together. -/
private theorem Gathered.rearranges {runs runs' : List (SearchRun (List β))}
    (gathered : Gathered search inputs runs)
    (gathered' : Gathered search' inputs runs') :
    (SearchLog.concat (runs.map (·.log))).Rearranges
        (SearchLog.concat (runs'.map (·.log))) ∧
      (runs.flatMap (·.value)).Perm (runs'.flatMap (·.value)) := by
  induction gathered generalizing runs' with
  | nil =>
      cases gathered'
      exact ⟨logCongruence_rearranges.refl _, .refl _⟩
  | @cons a run _ runs first _ ih =>
      cases gathered' with
      | cons first' others' =>
          obtain ⟨_, ended⟩ := first
          obtain ⟨_, ended'⟩ := first'
          obtain ⟨log, value⟩ := (elements a).both ended ended'
          obtain ⟨logs, values⟩ := ih others'
          exact ⟨logCongruence_rearranges.append log logs,
            value.append values⟩

/-- Searches for the elements of a list in two orders rearrange each other, if
they do so for each element. -/
theorem each_rearranges {inputs' : List α} (order : inputs.Perm inputs') :
    Rearranges (each search inputs) (each search' inputs') where
  both ended ended' := by
    obtain ⟨runs, gathered, value, log⟩ := exists_gathered ended
    obtain ⟨runs', gathered', value', log'⟩ := exists_gathered ended'
    obtain ⟨sorted, gatheredSorted, reorder⟩ :=
      List.perm_comp_forall₂ order gathered'
    obtain ⟨logs, values⟩ := Gathered.rearranges elements gathered gatheredSorted
    rw [value, log, value', log']
    exact ⟨logs.trans (SearchLog.concat_perm (reorder.map _)),
      values.trans (reorder.flatMap_right _)⟩

end Elements

/-! ## Branching search -/

namespace Branching

/-- Derivations are recorded for as many proofs. -/
private theorem recordEach_rearranges {head : Predicate}
    {branches branches' : List Branch} (order : branches.Perm branches') :
    Rearranges
      (Threaded.recordEach head (branches.map (·.bindings)) >>=
        fun _ => pure branches)
      (Threaded.recordEach head (branches'.map (·.bindings)) >>=
        fun _ => pure branches') := by
  refine .write_bind logCongruence_rearranges
    (Threaded.recordEach_run head _) (Threaded.recordEach_run head _) ?_
    (.pure logCongruence_rearranges order)
  rw [(order.map _).length_eq]
  exact logCongruence_rearranges.refl _

section Clauses

variable {solve solve' : Predicate → Branch → Search (List Branch)}
  (rearranges : ∀ goal b, Rearranges (solve goal b) (solve' goal b))
include rearranges

theorem conjunction_rearranges (goals : List Predicate) (b : Branch) :
    Rearranges (conjunction solve goals b) (conjunction solve' goals b) := by
  induction goals generalizing b with
  | nil => exact .pure logCongruence_rearranges (.refl _)
  | cons goal rest ih =>
      exact .bind logCongruence_rearranges (rearranges goal b)
        fun _ _ order => each_rearranges ih order

theorem useClause_rearranges (goal : Predicate) (b : Branch) (clause : Clause) :
    Rearranges (useClause solve goal b clause)
      (useClause solve' goal b clause) := by
  refine .count_bind logCongruence_rearranges _ ?_
  cases b.unify goal clause.head with
  | none => exact .pure logCongruence_rearranges (.refl _)
  | some u =>
      cases clause with
      | fact fact =>
          exact .record_bind logCongruence_rearranges _ <|
            .pure logCongruence_rearranges (.refl _)
      | rule rule =>
          exact .bind logCongruence_rearranges
            (.under logCongruence_rearranges _
              (conjunction_rearranges rearranges _ _))
            fun _ _ order => recordEach_rearranges order

end Clauses

theorem solve_rearranges {kb kb' : KnowledgeBase}
    (order : kb.toList.Perm kb'.toList) (settings : SearchSettings)
    (fuel fuel' depth : Nat) (goal : Predicate) (b : Branch) :
    Rearranges (solve kb settings fuel depth goal b)
      (solve kb' settings fuel' depth goal b) := by
  induction fuel generalizing fuel' depth goal b with
  | zero => exact .endless_left _
  | succ fuel ih =>
      cases fuel' with
      | zero => exact .endless_right _
      | succ fuel' =>
          rw [solve, solve]
          split
          · exact .count_bind logCongruence_rearranges _ <|
              each_rearranges
                (useClause_rearranges (ih fuel' (depth + 1)) goal b)
                (order.filter _)
          · exact .count_bind logCongruence_rearranges _ <|
              .pure logCongruence_rearranges (.refl _)

end Branching

/-! ## Single-pass search -/

namespace SinglePass

section Clauses

variable {solve solve' : Predicate → Search (List Predicate)}
  (rearranges : ∀ query, Rearranges (solve query) (solve' query))
include rearranges

/-- A body is given up at the same goal: the order of what was found for a goal
does not matter, only whether there was anything. -/
theorem allProved_rearranges (goals : List Predicate) :
    Coupled SearchLog.Rearranges Eq (allProved solve goals)
      (allProved solve' goals) := by
  induction goals with
  | nil => exact .pure logCongruence_rearranges rfl
  | cons goal rest ih =>
      refine .bind logCongruence_rearranges (rearranges goal)
        fun found found' order => ?_
      rw [order.isEmpty_eq]
      split
      · exact .pure logCongruence_rearranges rfl
      · exact ih

theorem useClause_rearranges (query : Predicate) (clause : Clause) :
    Rearranges (useClause solve query clause)
      (useClause solve' query clause) := by
  rw [useClause_eq, useClause_eq]
  refine .count_bind logCongruence_rearranges _ ?_
  cases query.unify clause.head with
  | none => exact .pure logCongruence_rearranges (.refl _)
  | some unifier =>
      cases clause with
      | fact fact =>
          exact .record_bind logCongruence_rearranges _ <|
            .pure logCongruence_rearranges (.refl _)
      | rule rule =>
          refine .bind logCongruence_rearranges
            (.under logCongruence_rearranges _
              (allProved_rearranges rearranges _)) ?_
          rintro proved _ rfl
          split
          · exact .record_bind logCongruence_rearranges _ <|
              .pure logCongruence_rearranges (.refl _)
          · exact .pure logCongruence_rearranges (.refl _)

end Clauses

theorem solve_rearranges {kb kb' : KnowledgeBase}
    (order : kb.toList.Perm kb'.toList) (settings : SearchSettings)
    (fuel fuel' depth : Nat) (query : Predicate) :
    Rearranges (solve kb settings fuel depth query)
      (solve kb' settings fuel' depth query) := by
  induction fuel generalizing fuel' depth query with
  | zero => exact .endless_left _
  | succ fuel ih =>
      cases fuel' with
      | zero => exact .endless_right _
      | succ fuel' =>
          rw [solve_succ, solve_succ]
          split
          · exact .count_bind logCongruence_rearranges _ <|
              each_rearranges (useClause_rearranges (ih fuel' (depth + 1)) query)
                (order.filter _)
          · exact .count_bind logCongruence_rearranges _ <|
              .pure logCongruence_rearranges (.refl _)

end SinglePass

end Search

namespace Resolver

open Search

variable {kb kb' : KnowledgeBase} (order : kb.toList.Perm kb'.toList)
include order

theorem branchSearch_rearranges (settings : SearchSettings)
    (query : Predicate) :
    Rearranges (branchSearch kb settings query)
      (branchSearch kb' settings query) := by
  rw [branchSearch, branchSearch]
  cases settings.conjunction with
  | threaded =>
      refine .bind logCongruence_rearranges
        (Branching.solve_rearranges order settings _ _ 0 query .start)
        fun branches branches' rearranged => ?_
      exact .pure logCongruence_rearranges (rearranged.map _)
  | singlePass => exact SinglePass.solve_rearranges order settings _ _ 0 query

/--
The order of the clauses decides only the order of the answers: the solutions
of a plain query and the recorded derivations are permuted, and all statistics
stay the same.
-/
theorem answer_perm_of_clauses {settings : SearchSettings}
    (limited : settings.maxDepth ≠ 0) {query : Predicate}
    (plain : query.Plain) :
    ∃ outcome permuted,
      answer { kb := kb, settings := settings } query = some outcome ∧
      answer { kb := kb', settings := settings } query = some permuted ∧
      outcome.solutions.Perm permuted.solutions ∧
      outcome.derivations.Perm permuted.derivations ∧
      outcome.stats = permuted.stats := by
  obtain ⟨run, ended, answered⟩ := exists_answer kb limited query
  obtain ⟨run', ended', answered'⟩ := exists_answer kb' limited query
  obtain ⟨⟨derivations, stats⟩, solutions⟩ := (search_coupled plain plain
    (branchSearch_rearranges order settings query)).both ended ended'
  refine ⟨_, _, answered, answered', solutions, derivations, ?_⟩
  simp only [resolution, stats, solutions.length_eq]

omit order in
/-- With the clauses in the opposite order the paths are the same. -/
theorem answer_perm_of_clauses_paths :
    Example.paths.toList.Perm Example.paths.toList.reverse ∧
    ∃ outcome permuted,
      answer { kb := Example.paths, settings := { maxDepth := 2 } }
        Example.query = some outcome ∧
      answer { kb := ⟨Example.paths.toList.reverse⟩
               settings := { maxDepth := 2 } } Example.query =
        some permuted ∧
      outcome.solutions.Perm permuted.solutions ∧
      outcome.derivations.Perm permuted.derivations ∧
      outcome.stats = permuted.stats := by
  have order : Example.paths.toList.Perm
      (KnowledgeBase.mk Example.paths.toList.reverse).toList :=
    (List.reverse_perm _).symm
  exact ⟨order, answer_perm_of_clauses order (by decide) Example.plain_query⟩

omit order in
example :
    (answer { kb := ⟨Example.paths.toList.reverse⟩
              settings := { maxDepth := 2 } } Example.query).map
        (·.solutions) =
      some [⟨"path", [.const "a", .const "c"]⟩,
        ⟨"path", [.const "a", .const "b"]⟩] := by
  decide +kernel

end Resolver

end HornLogic
