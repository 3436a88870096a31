import HornLogic.Proofs.Search.Branching
import HornLogic.Proofs.Search.Coupled
import HornLogic.Proofs.Search.SinglePass

/-!
# Answers to queries

What a plain query is answered and what is logged for it does not depend on
the generations that were drawn before.  A resolver therefore answers a query
in the same way whatever it was asked earlier; its log grows by what a fresh
resolver would have logged, under the path of the query.
-/

namespace HornLogic.Resolver

open Search

variable {kb : KnowledgeBase} {settings : SearchSettings} {query : Predicate}

/-- The search for the solutions of a query without drawing generations. -/
def branchSearch (kb : KnowledgeBase) (settings : SearchSettings)
    (query : Predicate) : Search (List Predicate) :=
  match settings.conjunction with
  | .threaded =>
      Branching.solve kb settings kb.horizon 0 query .start >>= fun branches =>
        pure (branches.map (·.bindings.answer query))
  | .singlePass => SinglePass.solve kb settings kb.horizon 0 query

/-- The search for a plain query does and finds what it would do and find
without drawing generations. -/
theorem search_related (kb : KnowledgeBase) (settings : SearchSettings)
    (plain : query.Plain) (generation : Nat) :
    Related Eq (fun _ => Eq) (search kb settings query) generation
      (branchSearch kb settings query) := by
  rw [search, branchSearch]
  cases settings.conjunction with
  | threaded =>
      have related := Branching.solve_mirrors kb settings kb.horizon 0 query
        .start (Equiv.refl Nat) .empty generation (Branch.appears_start _ _)
        (plain.known _ _ _)
      rw [plain.relabel_eq] at related
      refine related.bind logCongruence_eq fun drawn found branches _ paired => ?_
      exact .pure logCongruence_eq (Branching.map_answer_eq plain paired)
  | singlePass =>
      refine (SinglePass.solve_unmoved kb settings kb.horizon 0 query
        generation).weaken fun _ found found' _ same => ?_
      rwa [List.forall₂_eq_eq_eq] at same

/-- Searches for plain queries are coupled as they are without drawing
generations. -/
theorem search_coupled {kb' : KnowledgeBase} {settings' : SearchSettings}
    {query' : Predicate} {logs : SearchLog → SearchLog → Prop}
    {values : List Predicate → List Predicate → Prop} (plain : query.Plain)
    (plain' : query'.Plain)
    (coupled : Coupled logs values (branchSearch kb settings query)
      (branchSearch kb' settings' query')) :
    Coupled logs values (search kb settings query)
      (search kb' settings' query') where
  both {first second run run'} ended ended' := by
    obtain ⟨branching, hbranching, _, log, value⟩ :=
      (search_related kb settings plain first).forward ended 0
    obtain ⟨branching', hbranching', _, log', value'⟩ :=
      (search_related kb' settings' plain' second).forward ended' 0
    rw [log, log', value, value']
    exact coupled.both hbranching hbranching'

/-- The search for a query ends if nested goals have a bound below the horizon. -/
theorem search_ends_of_nests {bound : Nat → String → Nat}
    (nests : kb.Nests settings bound) (enough : bound 0 query.name < kb.horizon) :
    (search kb settings query).Ends := by
  rw [search]
  cases settings.conjunction with
  | threaded =>
      exact (Threaded.solve_ends nests enough .empty).bind fun _ => .pure _
  | singlePass => exact SinglePass.solve_ends nests enough

/-- Under a depth limit the search for a query ends. -/
theorem search_ends (kb : KnowledgeBase) (limited : settings.maxDepth ≠ 0)
    (query : Predicate) : (search kb settings query).Ends :=
  search_ends_of_nests (kb.nests_of_limit limited) (kb.limit_lt_horizon settings 0)

/-- Drawing other generations changes neither the solutions of a plain query
nor the log. -/
theorem search_shift (plain : query.Plain) {first : Nat}
    {run : SearchRun (List Predicate)}
    (ended : search kb settings query first = some run) (second : Nat) :
    ∃ run', search kb settings query second = some run' ∧
      run'.value = run.value ∧ run'.log = run.log := by
  obtain ⟨branching, hbranching, _, log, value⟩ :=
    (search_related kb settings plain first).forward ended 0
  have related := search_related kb settings plain second
  obtain ⟨run', ended'⟩ := related.backward hbranching
  obtain ⟨same, hsame, _, log', value'⟩ := related.forward ended' 0
  rw [hbranching, Option.some.injEq] at hsame
  subst hsame
  exact ⟨run', ended', value'.trans value.symm, log'.trans log.symm⟩

def resolution (query : Predicate) (run : SearchRun (List Predicate)) :
    Resolution where
  query := query
  solutions := run.value
  derivations := run.log.derivations
  stats := { run.log.stats with solutions := run.value.length }

/-- A fresh resolver reports what its search found and logged. -/
theorem answer_fresh (kb : KnowledgeBase) (settings : SearchSettings)
    (query : Predicate) :
    answer { kb := kb, settings := settings } query =
      (search kb settings query 0).map (resolution query) := by
  rw [answer, resolve, Option.map_map]
  apply congrArg (fun report => Option.map report _)
  funext run
  rw [Function.comp_apply, SearchLog.empty_append, SearchLog.under_nil]
  rfl

/-- Under a depth limit a fresh resolver has a report. -/
theorem exists_answer (kb : KnowledgeBase) (limited : settings.maxDepth ≠ 0)
    (query : Predicate) :
    ∃ run, search kb settings query 0 = some run ∧
      answer { kb := kb, settings := settings } query =
        some (resolution query run) := by
  obtain ⟨run, ended⟩ := search_ends kb limited query 0
  exact ⟨run, ended, by rw [answer_fresh, ended, Option.map_some]⟩

/-! ## One query after another -/

/-- The resolver is fresh or has answered queries since. -/
inductive Reached (kb : KnowledgeBase) (settings : SearchSettings) :
    Resolver → Prop where
  | fresh : Reached kb settings { kb := kb, settings := settings }
  | resolved {r after : Resolver} {query : Predicate} {path : Derivation}
      {solutions : List Predicate} (before : Reached kb settings r)
      (answered : r.resolve query path = some (solutions, after)) :
      Reached kb settings after

/-- Answering queries changes neither the knowledge base nor the settings. -/
theorem Reached.keeps {r : Resolver} (reached : Reached kb settings r) :
    r.kb = kb ∧ r.settings = settings := by
  induction reached with
  | fresh => exact ⟨rfl, rfl⟩
  | resolved before answered ih =>
      obtain ⟨run, _, same⟩ := Option.map_eq_some_iff.mp answered
      rw [Prod.mk.injEq] at same
      rw [← same.2]
      exact ih

/--
Whatever was asked before, a plain query gets the solutions that a fresh
resolver gives.  The derivations of the fresh resolver are recorded under the
path of the query, the counters grow by its counters, and the greatest depth
is the greater one.
-/
theorem resolve_of_reached {r : Resolver} (reached : Reached kb settings r)
    (plain : query.Plain) (path : Derivation) {solutions : List Predicate}
    {fresh : Resolver}
    (ended : resolve { kb := kb, settings := settings } query [] =
      some (solutions, fresh)) :
    ∃ after, r.resolve query path = some (solutions, after) ∧
      after.log.derivations =
        r.log.derivations ++ fresh.log.derivations.map (path ++ ·) ∧
      after.log.stats.goals = r.log.stats.goals + fresh.log.stats.goals ∧
      after.log.stats.attempted =
        r.log.stats.attempted + fresh.log.stats.attempted ∧
      after.log.stats.succeeded =
        r.log.stats.succeeded + fresh.log.stats.succeeded ∧
      after.log.stats.derivations =
        r.log.stats.derivations + fresh.log.stats.derivations ∧
      after.log.stats.cutoffs =
        r.log.stats.cutoffs + fresh.log.stats.cutoffs ∧
      after.log.stats.deepest =
        max r.log.stats.deepest fresh.log.stats.deepest := by
  obtain ⟨rfl, rfl⟩ := reached.keeps
  obtain ⟨run, searched, same⟩ := Option.map_eq_some_iff.mp ended
  obtain ⟨run', searched', value, log⟩ :=
    search_shift plain searched r.generation
  cases same
  refine ⟨{ r with
    generation := run'.generation
    log := r.log ++ run'.log.under path }, ?_, ?_⟩
  · rw [resolve, searched', Option.map_some, value]
  · rw [log, SearchLog.empty_append, SearchLog.under_nil]
    exact ⟨rfl, rfl, rfl, rfl, rfl, rfl, rfl⟩

/-- A resolver that has found the paths finds them again and records them
under the path of the query. -/
theorem resolve_of_reached_again :
    ∃ before after,
      Reached Example.paths { maxDepth := 2 } before ∧
      before.generation = 6 ∧
      before.resolve Example.query [⟨"why", []⟩] =
        some ([⟨"path", [.const "a", .const "b"]⟩,
          ⟨"path", [.const "a", .const "c"]⟩], after) ∧
      after.log.derivations = before.log.derivations ++
        before.log.derivations.map ([⟨"why", []⟩] ++ ·) := by
  have found : (search Example.paths { maxDepth := 2 } Example.query 0).map
      (fun run => (run.value, run.generation)) =
        some ([⟨"path", [.const "a", .const "b"]⟩,
          ⟨"path", [.const "a", .const "c"]⟩], 6) := by
    decide +kernel
  obtain ⟨run, searched, same⟩ := Option.map_eq_some_iff.mp found
  rw [Prod.mk.injEq] at same
  obtain ⟨before, ended, drawn⟩ : ∃ before,
      resolve { kb := Example.paths, settings := { maxDepth := 2 } }
        Example.query [] = some (run.value, before) ∧
      before.generation = run.generation :=
    ⟨_, by rw [resolve, searched, Option.map_some], rfl⟩
  have reached := Reached.fresh.resolved ended
  obtain ⟨after, answered, recorded, _⟩ := resolve_of_reached reached
    Example.plain_query [⟨"why", []⟩] ended
  rw [same.1] at answered
  exact ⟨before, after, reached, drawn.trans same.2, answered, recorded⟩

end HornLogic.Resolver
