import HornLogic.Proofs.Search.SinglePass
import HornLogic.Proofs.Search.Threaded

/-!
# What a search logs

A property of logs that goes from the parts of a search to the whole holds of
every log a search writes.  What is logged below a clause stands under its head,
so the property may depend on the depth and on the name and the arity of the
goal at hand.
-/

namespace HornLogic

abbrev Signature := String × Nat

def Predicate.signature (p : Predicate) : Signature :=
  (p.name, p.arity)

@[simp]
theorem Predicate.signature_renamed (p : Predicate) (generation : Nat) :
    (p.renamed generation).signature = p.signature := by
  simp [signature, renamed, arity]

@[simp]
theorem Substitution.signature_apply (s : Substitution) (p : Predicate) :
    (s.apply p).signature = p.signature := by
  simp [Predicate.signature, apply, Predicate.arity]

@[simp]
theorem Substitution.signature_resolve (s : Substitution) (p : Predicate) :
    (s.resolve p).signature = p.signature := by
  simp [Predicate.signature, resolve, Predicate.arity]

/-- What unifies has one signature. -/
theorem Predicate.signature_eq_of_unify {p q : Predicate} {u : Substitution}
    (unified : p.unify q = some u) : p.signature = q.signature := by
  obtain ⟨name, arity, _⟩ := unify_eq_some unified
  exact Prod.ext name arity

namespace SearchLog

theorem under_append (path : Derivation) (first second : SearchLog) :
    (first ++ second).under path = first.under path ++ second.under path := by
  change (⟨(first.derivations ++ second.derivations).map (path ++ ·),
      Stats.add first.stats second.stats⟩ : SearchLog) = ⟨_ ++ _, _⟩
  rw [List.map_append]
  rfl

/-- A property that consecutive parts of a log pass on to the whole. -/
structure Additive (holds : SearchLog → Prop) : Prop where
  empty : holds {}
  append : ∀ {first second : SearchLog}, holds first → holds second →
    holds (first ++ second)

theorem Additive.under {holds : SearchLog → Prop} (additive : Additive holds)
    (path : Derivation) : Additive fun log => holds (log.under path) where
  empty := additive.empty
  append here there := by
    rw [under_append]
    exact additive.append here there

end SearchLog

namespace Search

open SearchLog (Additive)

variable {α β : Type}

def Logs (search : Search α) (holds : SearchLog → Prop) : Prop :=
  ∀ generation run, search generation = some run → holds run.log

namespace Logs

variable {holds : SearchLog → Prop}

theorem endless : (endless : Search α).Logs holds :=
  fun _ _ ended => nomatch ended

theorem count {stats : Stats} (counted : holds ⟨[], stats⟩) :
    (count stats).Logs holds := by
  intro generation run ended
  cases ended
  exact counted

theorem record {derivation : Derivation}
    (recorded : holds ⟨[derivation], { derivations := 1 }⟩) :
    (record derivation).Logs holds := by
  intro generation run ended
  cases ended
  exact recorded

theorem under {search : Search α} {head : Predicate}
    (logs : search.Logs fun log => holds (log.under [head])) :
    (under head search).Logs holds := by
  intro generation run ended
  rw [Search.under, Option.map_eq_some_iff] at ended
  obtain ⟨inner, hinner, rfl⟩ := ended
  exact logs generation inner hinner

section Parts

variable (additive : Additive holds)
include additive

protected theorem pure (value : α) : (pure value : Search α).Logs holds := by
  intro generation run ended
  cases ended
  exact additive.empty

theorem freshGeneration : freshGeneration.Logs holds := by
  intro generation run ended
  cases ended
  exact additive.empty

theorem bind {step : Search α} {next : α → Search β} (first : step.Logs holds)
    (second : ∀ value, (next value).Logs holds) :
    (step >>= next).Logs holds := by
  intro generation run ended
  obtain ⟨start, rest, hstart, hrest, rfl⟩ := bind_eq_some.mp ended
  exact additive.append (first _ _ hstart) (second _ _ _ hrest)

theorem each {search : α → Search (List β)} {inputs : List α}
    (element : ∀ a ∈ inputs, (search a).Logs holds) :
    (each search inputs).Logs holds := by
  induction inputs with
  | nil => exact .pure additive _
  | cons a rest ih =>
      obtain ⟨first, others⟩ := List.forall_mem_cons.mp element
      exact .bind additive first fun _ =>
        .bind additive (ih others) fun _ => .pure additive _

end Parts

end Logs

/-! ## What is logged for a goal -/

/--
Properties of logs, by the depth and the signature of the goal at hand: `steps`
of what the steps taken for a goal log, and `goals` of all that is logged for a
goal.  Steps are only taken for goals within the depth limit.  What is logged
for a goal of a body goes under the head.
-/
structure Accounting (kb : KnowledgeBase) (settings : SearchSettings)
    (steps goals : Nat → Signature → SearchLog → Prop) : Prop where
  additive : ∀ depth signature, Additive (steps depth signature)
  tried : ∀ {depth : Nat} {signature : Signature} {log : SearchLog},
    settings.allows depth → steps depth signature log →
      goals depth signature (⟨[], { goals := 1, deepest := depth }⟩ ++ log)
  givenUp : ∀ {depth} signature, ¬ settings.allows depth →
    goals depth signature ⟨[], { cutoffs := 1 }⟩
  compared : ∀ {depth} signature {succeeded : Nat}, settings.allows depth →
    succeeded ≤ 1 →
      steps depth signature ⟨[], { attempted := 1, succeeded := succeeded }⟩
  recorded : ∀ {depth} {clause : Clause}, settings.allows depth →
    clause ∈ kb.toList →
      steps depth clause.head.signature ⟨[[clause.head]], { derivations := 1 }⟩
  below : ∀ {depth : Nat} {clause : Clause} {goal : Predicate} {log : SearchLog},
    settings.allows depth → clause ∈ kb.toList → goal ∈ clause.body →
      goals (depth + 1) goal.signature log →
        steps depth clause.head.signature (log.under [clause.head])

/-- A property of what is logged for goals of a depth and a signature, by the
steps of a search.  What is logged for a goal of a body goes under the head. -/
structure Logging (kb : KnowledgeBase) (settings : SearchSettings)
    (holds : Nat → Signature → SearchLog → Prop) : Prop where
  additive : ∀ depth signature, Additive (holds depth signature)
  tried : ∀ {depth} signature, settings.allows depth →
    holds depth signature ⟨[], { goals := 1, deepest := depth }⟩
  givenUp : ∀ {depth} signature, ¬ settings.allows depth →
    holds depth signature ⟨[], { cutoffs := 1 }⟩
  compared : ∀ depth signature {succeeded : Nat}, succeeded ≤ 1 →
    holds depth signature ⟨[], { attempted := 1, succeeded := succeeded }⟩
  recorded : ∀ depth {clause : Clause}, clause ∈ kb.toList →
    holds depth clause.head.signature ⟨[[clause.head]], { derivations := 1 }⟩
  below : ∀ {depth : Nat} {clause : Clause} {goal : Predicate} {log : SearchLog},
    clause ∈ kb.toList → goal ∈ clause.body →
      holds (depth + 1) goal.signature log →
        holds depth clause.head.signature (log.under [clause.head])

variable {kb : KnowledgeBase} {settings : SearchSettings}
  {steps goals : Nat → Signature → SearchLog → Prop}

/-- One property may serve for the steps and for the goals. -/
theorem Logging.accounting {holds : Nat → Signature → SearchLog → Prop}
    (logging : Logging kb settings holds) :
    Accounting kb settings holds holds where
  additive := logging.additive
  tried allowed taken :=
    (logging.additive _ _).append (logging.tried _ allowed) taken
  givenUp := logging.givenUp
  compared signature _ _ few := logging.compared _ signature few
  recorded _ member := logging.recorded _ member
  below _ member inside inner := logging.below member inside inner

/-- An attempt to unify is compared once and succeeds at most once, and what
follows may rely on its result. -/
theorem Accounting.attempted (accounting : Accounting kb settings steps goals)
    {β : Type} {depth : Nat} (allowed : settings.allows depth)
    {signature : Signature} {goal head : Predicate}
    {next : Option Substitution → Search β}
    (failed : (next none).Logs (steps depth signature))
    (unified : ∀ unifier, goal.unify head = some unifier →
      (next (some unifier)).Logs (steps depth signature)) :
    (attempt goal head >>= next).Logs (steps depth signature) := by
  rw [attempt_bind]
  refine .bind (accounting.additive depth signature)
    (.count (accounting.compared signature allowed ?_)) fun _ => ?_
  · split <;> decide
  · cases result : goal.unify head with
    | none => exact failed
    | some unifier => exact unified unifier result

/-- A goal that is tried is counted before any step is taken for it. -/
theorem Accounting.opened (accounting : Accounting kb settings steps goals)
    {β : Type} {depth : Nat} (allowed : settings.allows depth)
    {signature : Signature} {next : Unit → Search β}
    (taken : (next ()).Logs (steps depth signature)) :
    (count { goals := 1, deepest := depth } >>= next).Logs
      (goals depth signature) := by
  intro generation run ended
  obtain ⟨counted, rest, hcounted, hrest, rfl⟩ := bind_eq_some.mp ended
  cases hcounted
  exact accounting.tried allowed (taken _ _ hrest)

/-- A goal that lies too deep is counted and leads to nothing. -/
theorem Accounting.closed (accounting : Accounting kb settings steps goals)
    {β : Type} {depth : Nat} (cut : ¬ settings.allows depth)
    (signature : Signature) :
    (count { cutoffs := 1 } >>= fun _ => pure ([] : List β)).Logs
      (goals depth signature) := by
  intro generation run ended
  cases ended
  exact accounting.givenUp signature cut

namespace Threaded

theorem conjunction_logs
    {solve : Predicate → Substitution → Search (List Substitution)}
    {inner : SearchLog → Prop} (additive : Additive inner)
    {goals : List Predicate}
    (each : ∀ goal ∈ goals, ∀ bindings, (solve goal bindings).Logs inner)
    (bindings : Substitution) : (conjunction solve goals bindings).Logs inner := by
  induction goals generalizing bindings with
  | nil => exact .pure additive _
  | cons goal rest ih =>
      obtain ⟨first, others⟩ := List.forall_mem_cons.mp each
      exact .bind additive (first bindings) fun extended =>
        .each additive fun s _ => ih others s

private theorem recordEach_logs {inner : SearchLog → Prop}
    (additive : Additive inner) {head : Predicate}
    (recorded : inner ⟨[[head]], { derivations := 1 }⟩)
    (proofs : List Substitution) : (recordEach head proofs).Logs inner := by
  induction proofs with
  | nil => exact .pure additive _
  | cons proof rest ih => exact .bind additive (.record recorded) fun _ => ih

theorem useClause_logs (accounting : Accounting kb settings steps goals)
    {solve : Predicate → Substitution → Search (List Substitution)}
    {depth : Nat} (allowed : settings.allows depth) {clause : Clause}
    (member : clause ∈ kb.toList)
    (body : ∀ goal ∈ clause.body, ∀ generation bindings,
      (solve (goal.renamed generation) bindings).Logs
        (goals (depth + 1) goal.signature))
    (goal : Predicate) (bindings : Substitution) :
    (useClause solve goal bindings clause).Logs
      (steps depth goal.signature) := by
  have additive := accounting.additive depth goal.signature
  cases clause with
  | fact fact =>
      have used : ∀ fresh : Predicate, fresh.signature = fact.signature →
          ∀ unifier, goal.unify fresh = some unifier →
            (record [fact] >>= fun _ => pure [bindings.merged unifier]).Logs
              (steps depth goal.signature) := by
        intro fresh same unifier unified
        have alike := Predicate.signature_eq_of_unify unified
        have recorded := accounting.recorded allowed member
        rw [Clause.head, ← same, ← alike] at recorded
        exact .bind additive (.record recorded) fun _ => .pure additive _
      rw [useClause, useFact, freshFact]
      split
      · rw [pure_bind]
        exact accounting.attempted allowed (.pure additive _) (used fact rfl)
      · rw [bind_assoc]
        refine .bind additive (.freshGeneration additive) fun generation => ?_
        rw [pure_bind]
        exact accounting.attempted allowed (.pure additive _)
          (used _ (fact.signature_renamed generation))
  | rule rule =>
      have proved : ∀ generation bindings,
          goal.signature = rule.head.signature →
          (conjunction solve (rule.renamed generation).body bindings).Logs
            fun log => steps depth goal.signature (log.under [rule.head]) := by
        intro generation bindings alike
        refine conjunction_logs (additive.under [rule.head]) ?_ bindings
        intro renamed inside bindings
        obtain ⟨goal', written, rfl⟩ := List.mem_map.mp inside
        rw [alike]
        exact fun first run ended => accounting.below allowed member written
          (body goal' written generation bindings first run ended)
      rw [useClause, useRule]
      refine .bind additive (.freshGeneration additive) fun generation =>
        accounting.attempted allowed (.pure additive _) fun unifier unified => ?_
      have alike := Predicate.signature_eq_of_unify unified
      rw [Rule.renamed, Predicate.signature_renamed] at alike
      have recorded := accounting.recorded allowed member
      rw [Clause.head, ← alike] at recorded
      exact .bind additive (.under (proved _ _ alike)) fun proofs =>
        .bind additive (recordEach_logs additive recorded proofs) fun _ =>
          .pure additive _

/-- Whatever is logged for a goal has the property for its depth and
signature. -/
theorem solve_logs (accounting : Accounting kb settings steps goals)
    (fuel depth : Nat) (goal : Predicate) (bindings : Substitution) :
    (solve kb settings fuel depth goal bindings).Logs
      (goals depth goal.signature) := by
  induction fuel generalizing depth goal bindings with
  | zero => exact .endless
  | succ fuel ih =>
      have additive := accounting.additive depth goal.signature
      rw [solve_succ]
      split
      · rename_i allowed
        refine accounting.opened allowed <| .each additive fun clause named => ?_
        have member := (KnowledgeBase.mem_named.mp named).1
        have used := useClause_logs accounting allowed member
          (fun written _ generation bindings' => by
            have deeper := ih (depth + 1) (written.renamed generation) bindings'
            rwa [Predicate.signature_renamed] at deeper)
          (bindings.resolve goal) bindings
        rwa [Substitution.signature_resolve] at used
      · rename_i cut
        exact accounting.closed cut _

end Threaded

namespace SinglePass

theorem allProved_logs {solve : Predicate → Search (List Predicate)}
    {inner : SearchLog → Prop} (additive : Additive inner)
    {goals : List Predicate} (each : ∀ goal ∈ goals, (solve goal).Logs inner) :
    (allProved solve goals).Logs inner := by
  induction goals with
  | nil => exact .pure additive _
  | cons goal rest ih =>
      obtain ⟨first, others⟩ := List.forall_mem_cons.mp each
      refine .bind additive first fun found => ?_
      split
      · exact .pure additive _
      · exact ih others

theorem useClause_logs (accounting : Accounting kb settings steps goals)
    {solve : Predicate → Search (List Predicate)} {depth : Nat}
    (allowed : settings.allows depth) {clause : Clause}
    (member : clause ∈ kb.toList)
    (body : ∀ goal ∈ clause.body, ∀ unifier : Substitution,
      (solve (unifier.apply goal)).Logs (goals (depth + 1) goal.signature))
    (query : Predicate) :
    (useClause solve query clause).Logs (steps depth query.signature) := by
  have additive := accounting.additive depth query.signature
  have recorded : ∀ unifier, query.unify clause.head = some unifier →
      steps depth query.signature ⟨[[clause.head]], { derivations := 1 }⟩ := by
    intro unifier unified
    rw [Predicate.signature_eq_of_unify unified]
    exact accounting.recorded allowed member
  cases clause with
  | fact fact =>
      rw [useClause, useFact]
      exact accounting.attempted allowed (.pure additive _) fun unifier unified =>
        .bind additive (.record (recorded unifier unified)) fun _ =>
          .pure additive _
  | rule rule =>
      rw [useClause, useRule]
      refine accounting.attempted allowed (.pure additive _)
        fun unifier unified => ?_
      have proved : (allProved solve (rule.body.map unifier.apply)).Logs
          fun log => steps depth query.signature (log.under [rule.head]) := by
        refine allProved_logs (additive.under [rule.head]) ?_
        intro applied inside
        obtain ⟨goal, written, rfl⟩ := List.mem_map.mp inside
        rw [Predicate.signature_eq_of_unify unified]
        exact fun first run ended => accounting.below allowed member written
          (body goal written unifier first run ended)
      refine .bind additive (.under proved) fun _ => ?_
      split
      · exact .bind additive (.record (recorded unifier unified)) fun _ =>
          .pure additive _
      · exact .pure additive _

theorem solve_logs (accounting : Accounting kb settings steps goals)
    (fuel depth : Nat) (query : Predicate) :
    (solve kb settings fuel depth query).Logs (goals depth query.signature) := by
  induction fuel generalizing depth query with
  | zero => exact .endless
  | succ fuel ih =>
      have additive := accounting.additive depth query.signature
      rw [solve_succ]
      split
      · rename_i allowed
        refine accounting.opened allowed <| .each additive fun clause named => ?_
        have member := (KnowledgeBase.mem_named.mp named).1
        exact useClause_logs accounting allowed member
          (fun written _ unifier => by
            have deeper := ih (depth + 1) (unifier.apply written)
            rwa [Substitution.signature_apply] at deeper)
          query
      · rename_i cut
        exact accounting.closed cut _

end SinglePass

end Search

namespace Resolver

open Search (Accounting Logging)

variable {kb : KnowledgeBase} {settings : SearchSettings}

/-- Whatever is logged for a query has the property of goals at depth zero. -/
theorem search_accounts {steps goals : Nat → Signature → SearchLog → Prop}
    (accounting : Accounting kb settings steps goals) (query : Predicate) :
    (search kb settings query).Logs (goals 0 query.signature) := by
  rw [search]
  cases settings.conjunction with
  | threaded =>
      intro generation run ended
      obtain ⟨found, last, hfound, hlast, rfl⟩ := Search.bind_eq_some.mp ended
      cases hlast
      rw [SearchLog.append_empty]
      exact Search.Threaded.solve_logs accounting _ 0 query .empty _ _ hfound
  | singlePass => exact Search.SinglePass.solve_logs accounting _ 0 query

/-- Whatever is logged for a query has the property at depth zero. -/
theorem search_logs {holds : Nat → Signature → SearchLog → Prop}
    (logging : Logging kb settings holds) (query : Predicate) :
    (search kb settings query).Logs (holds 0 query.signature) :=
  search_accounts logging.accounting query

/-- A resolver that answers a query has searched for it, and what the search
logged goes under the path of the query. -/
theorem search_of_resolve {r after : Resolver} {query : Predicate}
    {path : Derivation} {solutions : List Predicate}
    (answered : r.resolve query path = some (solutions, after)) :
    ∃ run, search r.kb r.settings query r.generation = some run ∧
      solutions = run.value ∧
      after = { r with
        generation := run.generation
        log := r.log ++ run.log.under path } := by
  obtain ⟨run, ended, same⟩ := Option.map_eq_some_iff.mp answered
  rw [Prod.mk.injEq] at same
  exact ⟨run, ended, same.1.symm, same.2.symm⟩

end Resolver

end HornLogic
