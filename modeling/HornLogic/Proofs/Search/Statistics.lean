import HornLogic.Proofs.Search.Attribution

/-!
# What the statistics say of each other

A resolver answers one query after the other and counts on.  A goal is given up
only below a goal at the depth limit, and every step of a derivation is the head
of a clause for a goal that was tried one level below the step before.  The depth
of a goal and the greatest depth counted for it therefore bound the derivations
recorded for it, and show whether a goal was given up below it.
-/

namespace HornLogic

namespace SearchLog

/-- The counters agree with each other and with the depth limit; goals were
given up only if the limit lies below a certain extent. -/
structure Consistent (settings : SearchSettings) (extent : Nat)
    (log : SearchLog) : Prop where
  counted : log.stats.derivations = log.derivations.length
  succeeded : log.stats.succeeded ≤ log.stats.attempted
  unlimited : settings.maxDepth = 0 → log.stats.cutoffs = 0
  within : settings.maxDepth ≠ 0 → log.stats.deepest ≤ settings.maxDepth.toNat
  cut : 0 < log.stats.cutoffs → settings.maxDepth.toNat < extent

/-- What is logged for a goal is consistent, and no derivation reaches beyond
the extent. -/
structure Balanced (settings : SearchSettings) (depth extent : Nat)
    (log : SearchLog) : Prop extends Consistent settings extent log where
  reached : ∀ derivation ∈ log.derivations, depth + derivation.length ≤ extent

variable {settings : SearchSettings} {depth extent greater : Nat}
  {log first second : SearchLog}

namespace Consistent

protected theorem empty : Consistent settings extent {} where
  counted := rfl
  succeeded := Nat.le_refl 0
  unlimited _ := rfl
  within _ := Nat.zero_le _
  cut given := absurd given (Nat.lt_irrefl 0)

theorem widen (consistent : log.Consistent settings extent)
    (wider : extent ≤ greater) : log.Consistent settings greater :=
  { consistent with
    cut := fun given => Nat.lt_of_lt_of_le (consistent.cut given) wider }

theorem append (here : first.Consistent settings extent)
    (there : second.Consistent settings extent) :
    (first ++ second).Consistent settings extent where
  counted := by
    change first.stats.derivations + second.stats.derivations = _
    rw [here.counted, there.counted]
    exact List.length_append.symm
  succeeded := Nat.add_le_add here.succeeded there.succeeded
  unlimited none := by
    change first.stats.cutoffs + second.stats.cutoffs = 0
    rw [here.unlimited none, there.unlimited none]
  within limited := Nat.max_le.mpr ⟨here.within limited, there.within limited⟩
  cut given := by
    change 0 < first.stats.cutoffs + second.stats.cutoffs at given
    rcases Nat.eq_zero_or_pos first.stats.cutoffs with none | some
    · exact there.cut (by omega)
    · exact here.cut some

/-- A path in front of the derivations is not counted. -/
theorem under (consistent : log.Consistent settings extent)
    (path : Derivation) : (log.under path).Consistent settings extent :=
  { consistent with
    counted := by
      rw [SearchLog.under, List.length_map]
      exact consistent.counted }

end Consistent

namespace Balanced

theorem widen (balanced : log.Balanced settings depth extent)
    (wider : extent ≤ greater) : log.Balanced settings depth greater where
  toConsistent := balanced.toConsistent.widen wider
  reached derivation recorded :=
    Nat.le_trans (balanced.reached derivation recorded) wider

theorem append (here : first.Balanced settings depth extent)
    (there : second.Balanced settings depth extent) :
    (first ++ second).Balanced settings depth extent where
  toConsistent := here.toConsistent.append there.toConsistent
  reached := List.forall_mem_append.mpr ⟨here.reached, there.reached⟩

/-- A head in front of the derivations makes up for one level. -/
theorem under (balanced : log.Balanced settings (depth + 1) extent)
    (head : Predicate) :
    (log.under [head]).Balanced settings depth extent where
  toConsistent := balanced.toConsistent.under [head]
  reached := by
    intro longer recorded
    obtain ⟨derivation, inner, rfl⟩ := List.mem_map.mp recorded
    have within := balanced.reached derivation inner
    change depth + (derivation.length + 1) ≤ extent
    omega

end Balanced

end SearchLog

open Search (Accounting)

/-- The steps taken for a goal reach one level below the deepest goal that was
tried for it, the goal at hand included. -/
theorem SearchLog.balanced_accounting (kb : KnowledgeBase)
    (settings : SearchSettings) :
    Accounting kb settings
      (fun depth _ log =>
        log.Balanced settings depth (max depth log.stats.deepest + 1))
      (fun depth _ log =>
        log.Balanced settings depth (max depth (log.stats.deepest + 1))) where
  additive depth _ := {
    empty := ⟨.empty, List.forall_mem_nil _⟩
    append {first second} here there := by
      change (first ++ second).Balanced settings depth
        (max depth (max first.stats.deepest second.stats.deepest) + 1)
      exact (here.widen (by omega)).append (there.widen (by omega)) }
  tried {depth _ log} allowed taken := by
    -- The goal at hand is counted, so its own depth is no longer added.
    change (_ ++ log).Balanced settings depth
      (max depth (max depth log.stats.deepest + 1))
    refine .append ⟨⟨rfl, Nat.le_refl 0, fun _ => rfl, ?_, ?_⟩, ?_⟩
      (taken.widen (Nat.le_max_right _ _))
    · exact fun limited => (SearchSettings.allows_iff limited).mp allowed
    · exact fun given => absurd given (Nat.lt_irrefl 0)
    · exact List.forall_mem_nil _
  givenUp {depth} _ cut := by
    -- The goal lies below the limit, and the extent below the goal.
    have limited : settings.maxDepth ≠ 0 := fun unlimited =>
      cut (SearchSettings.allows_of_unlimited unlimited)
    have deep := mt (SearchSettings.allows_iff limited).mpr cut
    refine ⟨⟨rfl, Nat.le_refl 0, ?_, fun _ => Nat.zero_le _, fun _ => ?_⟩,
      List.forall_mem_nil _⟩
    · exact fun unlimited => absurd unlimited limited
    · exact Nat.lt_of_lt_of_le (Nat.lt_of_not_le deep) (Nat.le_max_left _ _)
  compared _ _ _ few :=
    ⟨⟨rfl, few, fun _ => rfl, fun _ => Nat.zero_le _,
      fun given => absurd given (Nat.lt_irrefl 0)⟩, List.forall_mem_nil _⟩
  recorded {depth clause} _ _ := by
    refine ⟨⟨rfl, Nat.le_refl 0, fun _ => rfl, fun _ => Nat.zero_le _,
      fun given => absurd given (Nat.lt_irrefl 0)⟩, fun derivation recorded => ?_⟩
    rw [List.mem_singleton.mp recorded]
    exact Nat.succ_le_succ (Nat.le_max_left depth 0)
  below {depth clause goal log} _ _ _ inner := by
    have extent : max (depth + 1) (log.stats.deepest + 1) =
        max depth log.stats.deepest + 1 := by omega
    rw [extent] at inner
    exact inner.under clause.head

/-! ## Query after query -/

namespace Resolver

structure Exchange where
  path : Derivation
  solutions : List Predicate
  /-- The derivations recorded for the query, under its path. -/
  recorded : List Derivation

/-- Answer queries that were reached by paths of clauses, one after the other.
The result is none if the search for one of them has no end. -/
def resolveAll (r : Resolver) :
    List (Predicate × Derivation) → Option (List Exchange × Resolver)
  | [] => some ([], r)
  | (query, path) :: rest => do
      let (solutions, after) ← r.resolve query path
      let (exchanges, last) ← after.resolveAll rest
      let recorded := after.log.derivations.drop r.log.derivations.length
      pure (⟨path, solutions, recorded⟩ :: exchanges, last)

/-- Every solution has a derivation, and no derivation goes further than one step
below the deepest goal. -/
structure Exchange.Accounted (deepest : Nat) (exchange : Exchange) : Prop where
  derived : exchange.solutions.length ≤ exchange.recorded.length
  reached : ∀ derivation ∈ exchange.recorded,
    derivation.length ≤ exchange.path.length + 1 + deepest

/-- A deeper goal may be tried later. -/
theorem Exchange.Accounted.deepen {deepest deeper : Nat} {exchange : Exchange}
    (accounted : exchange.Accounted deepest) (later : deepest ≤ deeper) :
    exchange.Accounted deeper where
  derived := accounted.derived
  reached derivation recorded :=
    Nat.le_trans (accounted.reached derivation recorded)
      (Nat.add_le_add_left later _)

/-- The counters agree with each other, and goals were given up only below
goals at the limit. -/
def Consistent (r : Resolver) : Prop :=
  r.log.Consistent r.settings (r.log.stats.deepest + 1)

/-- From one resolver to another the derivations of some exchanges are added,
which the counters account for. -/
structure Advances (before : Resolver) (exchanges : List Exchange)
    (after : Resolver) : Prop where
  settings : after.settings = before.settings
  derivations : after.log.derivations =
    before.log.derivations ++ exchanges.flatMap (·.recorded)
  deepest : before.log.stats.deepest ≤ after.log.stats.deepest
  accounted : ∀ exchange ∈ exchanges,
    exchange.Accounted after.log.stats.deepest
  consistent : before.Consistent → after.Consistent

namespace Advances

theorem refl (r : Resolver) : r.Advances [] r where
  settings := rfl
  derivations := (List.append_nil _).symm
  deepest := Nat.le_refl _
  accounted := List.forall_mem_nil _
  consistent := id

theorem trans {first second third : Resolver}
    {exchanges later : List Exchange} (advances : first.Advances exchanges second)
    (others : second.Advances later third) :
    first.Advances (exchanges ++ later) third where
  settings := others.settings.trans advances.settings
  derivations := by
    rw [others.derivations, advances.derivations, List.flatMap_append,
      List.append_assoc]
  deepest := Nat.le_trans advances.deepest others.deepest
  accounted := List.forall_mem_append.mpr
    ⟨fun exchange member =>
      (advances.accounted exchange member).deepen others.deepest,
      others.accounted⟩
  consistent before := others.consistent (advances.consistent before)

end Advances

/-- What is logged for a query reaches one step below the deepest goal. -/
theorem balanced_of_search {kb : KnowledgeBase} {settings : SearchSettings}
    {query : Predicate} {generation : Nat} {run : SearchRun (List Predicate)}
    (ended : search kb settings query generation = some run) :
    run.log.Balanced settings 0 (run.log.stats.deepest + 1) := by
  have balanced : run.log.Balanced settings 0
      (max 0 (run.log.stats.deepest + 1)) :=
    search_accounts (SearchLog.balanced_accounting kb settings) query _ run ended
  rwa [Nat.max_eq_right (Nat.zero_le _)] at balanced

/-- The counters agree after a query as they did before it. -/
theorem consistent_of_resolve {r after : Resolver} {query : Predicate}
    {path : Derivation} {solutions : List Predicate}
    (answered : r.resolve query path = some (solutions, after))
    (before : r.Consistent) : after.Consistent := by
  obtain ⟨run, ended, _, rfl⟩ := search_of_resolve answered
  have logged := (balanced_of_search ended).toConsistent.under path
  have kept := before.widen
    (Nat.succ_le_succ (Nat.le_max_left _ run.log.stats.deepest))
  have added := logged.widen
    (Nat.succ_le_succ (Nat.le_max_right r.log.stats.deepest _))
  exact kept.append added

/-- One query adds its derivations. -/
theorem advances_of_resolve {r after : Resolver} {query : Predicate}
    {path : Derivation} {solutions : List Predicate}
    (answered : r.resolve query path = some (solutions, after)) :
    r.Advances
      [⟨path, solutions, after.log.derivations.drop r.log.derivations.length⟩]
      after := by
  obtain ⟨run, ended, rfl, same⟩ := search_of_resolve answered
  have grown : after.log.derivations =
      r.log.derivations ++ run.log.derivations.map (path ++ ·) := by
    rw [same]
    rfl
  have deepest : after.log.stats.deepest =
      max r.log.stats.deepest run.log.stats.deepest := by
    rw [same]
    rfl
  have reaches : run.log.stats.deepest ≤ after.log.stats.deepest :=
    deepest ▸ Nat.le_max_right _ _
  have recorded : after.log.derivations.drop r.log.derivations.length =
      run.log.derivations.map (path ++ ·) := by
    rw [grown, List.drop_left]
  rw [recorded]
  refine ⟨by rw [same], by rw [grown, List.flatMap_singleton],
    deepest ▸ Nat.le_max_left _ _,
    List.forall_mem_singleton.mpr ⟨?_, ?_⟩, consistent_of_resolve answered⟩
  · rw [List.length_map, ← length_immediate_of_search ended]
    exact List.length_filter_le _ _
  · intro derivation member
    obtain ⟨steps, inner, rfl⟩ := List.mem_map.mp member
    have within := (balanced_of_search ended).reached steps inner
    rw [List.length_append]
    change path.length + steps.length ≤ path.length + 1 + _
    omega

/-- Query after query the derivations are added. -/
theorem advances_of_resolveAll {r last : Resolver}
    {queries : List (Predicate × Derivation)} {exchanges : List Exchange}
    (answered : r.resolveAll queries = some (exchanges, last)) :
    r.Advances exchanges last := by
  induction queries generalizing r exchanges with
  | nil =>
      cases answered
      exact .refl _
  | cons asked rest ih =>
      obtain ⟨⟨solutions, after⟩, first, remaining⟩ :=
        Option.bind_eq_some_iff.mp answered
      obtain ⟨⟨later, last'⟩, others, same⟩ :=
        Option.bind_eq_some_iff.mp remaining
      cases same
      exact (advances_of_resolve first).trans (ih others)

/-- Together there are no more solutions than derivations. -/
theorem length_solutions_le {deepest : Nat} {exchanges : List Exchange}
    (accounted : ∀ exchange ∈ exchanges, exchange.Accounted deepest) :
    (exchanges.flatMap (·.solutions)).length ≤
      (exchanges.flatMap (·.recorded)).length := by
  induction exchanges with
  | nil => exact Nat.le_refl 0
  | cons exchange rest ih =>
      obtain ⟨first, others⟩ := List.forall_mem_cons.mp accounted
      rw [List.flatMap_cons, List.flatMap_cons, List.length_append,
        List.length_append]
      exact Nat.add_le_add first.derived (ih others)

/--
Whatever queries a resolver has answered, it has counted the derivations that it
keeps, and these are at least as many as the solutions.  No more unifications
succeeded than were attempted.  Without a limit no goal was given up; under a
limit none was tried below it, and when one was given up, one at the limit was
tried.  A derivation goes at most one step further than the deepest goal.
-/
theorem stats_of_resolveAll {kb : KnowledgeBase} {settings : SearchSettings}
    {queries : List (Predicate × Derivation)} {exchanges : List Exchange}
    {last : Resolver}
    (answered : resolveAll { kb := kb, settings := settings } queries =
      some (exchanges, last)) :
    last.log.derivations = exchanges.flatMap (·.recorded) ∧
      last.log.stats.derivations = last.log.derivations.length ∧
      last.log.stats.succeeded ≤ last.log.stats.attempted ∧
      (exchanges.flatMap (·.solutions)).length ≤ last.log.stats.derivations ∧
      (settings.maxDepth = 0 → last.log.stats.cutoffs = 0) ∧
      (settings.maxDepth ≠ 0 →
        last.log.stats.deepest ≤ settings.maxDepth.toNat ∧
          (0 < last.log.stats.cutoffs →
            last.log.stats.deepest = settings.maxDepth.toNat)) ∧
      ∀ exchange ∈ exchanges, ∀ derivation ∈ exchange.recorded,
        derivation.length ≤
          exchange.path.length + 1 + last.log.stats.deepest := by
  have advances := advances_of_resolveAll answered
  have consistent := advances.consistent .empty
  have limit := advances.settings
  rw [Consistent, limit] at consistent
  have all : last.log.derivations = exchanges.flatMap (·.recorded) :=
    advances.derivations
  refine ⟨all, consistent.counted, consistent.succeeded, ?_,
    consistent.unlimited, fun limited => ⟨consistent.within limited, ?_⟩,
    fun exchange member => (advances.accounted exchange member).reached⟩
  · rw [consistent.counted, all]
    exact length_solutions_le advances.accounted
  · intro given
    exact Nat.le_antisymm (consistent.within limited)
      (Nat.le_of_lt_succ (consistent.cut given))

/-- Under a limit of two, goals at depth two were tried and others given up
below them, in each of two queries with two solutions. -/
theorem stats_of_resolveAll_paths :
    ∃ exchanges last,
      resolveAll { kb := Example.paths, settings := { maxDepth := 2 } }
          [(Example.query, []), (Example.query, [⟨"why", []⟩])] =
        some (exchanges, last) ∧
      (exchanges.flatMap (·.solutions)).length = 4 ∧
      last.log.stats.cutoffs = 4 ∧
      last.log.stats.derivations = last.log.derivations.length ∧
      4 ≤ last.log.stats.derivations ∧
      last.log.stats.deepest = 2 := by
  have found : (resolveAll { kb := Example.paths, settings := { maxDepth := 2 } }
      [(Example.query, []), (Example.query, [⟨"why", []⟩])]).map
        (fun answer => ((answer.1.flatMap (·.solutions)).length,
          answer.2.log.stats.cutoffs)) = some (4, 4) := by
    decide +kernel
  obtain ⟨⟨exchanges, last⟩, answered, numbers⟩ :=
    Option.map_eq_some_iff.mp found
  obtain ⟨four, cutoffs⟩ := Prod.mk.inj numbers
  obtain ⟨_, counted, _, fewer, _, limited, _⟩ := stats_of_resolveAll answered
  have given : 0 < last.log.stats.cutoffs := by
    rw [cutoffs]
    decide
  refine ⟨exchanges, last, answered, four, cutoffs, counted, four ▸ fewer, ?_⟩
  exact (limited (by decide)).2 given

end Resolver

end HornLogic
