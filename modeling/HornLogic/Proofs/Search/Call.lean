import HornLogic.Proofs.Plain
import HornLogic.Proofs.Search.Threaded
import HornLogic.Search.Resolver

/-!
# Calls of the threaded search

The search for a query consists of calls for single goals and for the goals of
a body.  Which calls a call makes depends on what the calls before them
returned.  Whether or not the search ends, every call is given a layered
substitution and goals of generations drawn before.
-/

namespace HornLogic

open Search Search.Threaded

/-- A request to the threaded search, with the generation drawn last. -/
inductive Call where
  /-- Prove one goal. -/
  | single (depth : Nat) (goal : Predicate) (bindings : Substitution)
      (generation : Nat)
  /-- Prove goals from left to right. -/
  | joint (depth : Nat) (goals : List Predicate) (bindings : Substitution)
      (generation : Nat)

namespace Call

def bindings : Call → Substitution
  | .single _ _ bindings _ => bindings
  | .joint _ _ bindings _ => bindings

def goals : Call → List Predicate
  | .single _ goal _ _ => [goal]
  | .joint _ goals _ _ => goals

def generation : Call → Nat
  | .single _ _ _ generation => generation
  | .joint _ _ _ generation => generation

/-- What the call computes, for a number of nested goals. -/
def search (kb : KnowledgeBase) (settings : SearchSettings) (fuel : Nat) :
    Call → Search (List Substitution)
  | .single depth goal bindings _ =>
      Threaded.solve kb settings fuel depth goal bindings
  | .joint depth goals bindings _ =>
      Threaded.conjunction (Threaded.solve kb settings fuel depth) goals bindings

/-- The call ends and returns some substitutions. -/
def Returns (kb : KnowledgeBase) (settings : SearchSettings) (call : Call)
    (found : List Substitution) : Prop :=
  ∃ fuel run, call.search kb settings fuel call.generation = some run ∧
    run.value = found

/--
One call makes another.  A goal calls for the body of each rule whose head it
unifies with, after the clauses in front of the rule have been used; the goals
of a body call for the first one, and for the others under each substitution
returned for it, after the substitutions in front of it have been used.
-/
inductive Invokes (kb : KnowledgeBase) (settings : SearchSettings) :
    Call → Call → Prop where
  | body {fuel depth generation : Nat} {goal : Predicate}
      {bindings u : Substitution} {before after : List Clause} {rule : Rule}
      {run : SearchRun (List Substitution)}
      (allowed : settings.allows depth)
      (clauses : kb.named goal.name = before ++ .rule rule :: after)
      (ended : each (useClause (solve kb settings fuel (depth + 1))
        (bindings.resolve goal) bindings) before generation = some run)
      (unified : (bindings.resolve goal).unify
        (rule.renamed (run.generation + 1)).head = some u) :
      Invokes kb settings (.single depth goal bindings generation)
        (.joint (depth + 1) (rule.renamed (run.generation + 1)).body
          (bindings.merged u) (run.generation + 1))
  | first {depth generation : Nat} {goal : Predicate} {rest : List Predicate}
      {bindings : Substitution} :
      Invokes kb settings (.joint depth (goal :: rest) bindings generation)
        (.single depth goal bindings generation)
  | rest {fuel depth generation : Nat} {goal : Predicate}
      {rest : List Predicate} {bindings s : Substitution}
      {before after : List Substitution}
      {run run' : SearchRun (List Substitution)}
      (proved : solve kb settings fuel depth goal bindings generation = some run)
      (found : run.value = before ++ s :: after)
      (ended : each (Threaded.conjunction (solve kb settings fuel depth) rest)
        before run.generation = some run') :
      Invokes kb settings (.joint depth (goal :: rest) bindings generation)
        (.joint depth rest s run'.generation)

variable {kb : KnowledgeBase} {settings : SearchSettings}

/-- Whatever is returned for a goal comes from unifying it with a fact or is
returned by a call that is made for the body of a rule. -/
theorem Returns.of_single {depth generation : Nat} {goal : Predicate}
    {bindings s : Substitution} {found : List Substitution}
    (returns : (single depth goal bindings generation).Returns kb settings found)
    (member : s ∈ found) :
    (∃ fact fresh u, .fact fact ∈ kb.named goal.name ∧
      (bindings.resolve goal).unify (fact.renamed fresh) = some u ∧
      s = bindings.merged u) ∨
    ∃ callee found', Invokes kb settings (single depth goal bindings generation)
      callee ∧ callee.Returns kb settings found' ∧ s ∈ found' := by
  obtain ⟨fuel, run, ended, rfl⟩ := returns
  cases fuel with
  | zero => cases ended
  | succ fuel =>
      rw [search, solve_succ] at ended
      split at ended
      · rename_i allowed
        obtain ⟨_, rest, hcount, hrest, rfl⟩ := bind_eq_some.mp ended
        cases hcount
        obtain ⟨before, clause, after, first, inner, clauses, hbefore, hclause,
          inside⟩ := mem_each_run hrest member
        cases clause with
        | fact fact =>
            rcases useFact_run hclause with nothing | ⟨fresh, u, unified, same⟩
            · rw [nothing] at inside
              cases inside
            · rw [same] at inside
              exact .inl ⟨fact, fresh, u, by simp [clauses], unified,
                List.mem_singleton.mp inside⟩
        | rule rule =>
            rcases useRule_run hclause with ⟨_, nothing⟩ | ⟨u, body, unified,
              hbody, same⟩
            · rw [nothing] at inside
              cases inside
            · exact .inr ⟨_, body.value, .body allowed clauses hbefore unified,
                ⟨fuel, body, hbody, rfl⟩, same ▸ inside⟩
      · obtain ⟨_, rest, _, hrest, rfl⟩ := bind_eq_some.mp ended
        cases hrest
        cases member

/-- Whatever is returned for the goals of a body is returned by a call that is
made for all but the first. -/
theorem Returns.of_joint {depth generation : Nat} {goal : Predicate}
    {goals : List Predicate} {bindings s : Substitution}
    {found : List Substitution}
    (returns : (joint depth (goal :: goals) bindings generation).Returns kb
      settings found) (member : s ∈ found) :
    ∃ callee found', Invokes kb settings
      (joint depth (goal :: goals) bindings generation) callee ∧
        callee.Returns kb settings found' ∧ s ∈ found' := by
  obtain ⟨fuel, run, ended, rfl⟩ := returns
  obtain ⟨first, last, hfirst, hlast, rfl⟩ := bind_eq_some.mp ended
  obtain ⟨before, s₁, after, middle, inner, split, hbefore, hinner, inside⟩ :=
    mem_each_run hlast member
  exact ⟨_, inner.value, .rest hfirst split hbefore,
    ⟨fuel, inner, hinner, rfl⟩, inside⟩

/-- The substitution is layered and the goals are old. -/
structure Proper (call : Call) : Prop where
  layered : call.bindings.Layered call.generation
  old : ∀ goal ∈ call.goals, goal.Within call.generation

theorem Proper.invokes {call callee : Call} (proper : call.Proper)
    (invokes : Invokes kb settings call callee) : callee.Proper := by
  cases invokes with
  | @body fuel depth generation goal bindings u before after rule run allowed
      clauses ended unified =>
      have layered : bindings.Layered generation := proper.layered
      have old : goal.Within generation := proper.old goal List.mem_cons_self
      have drawn : generation ≤ run.generation :=
        (Ensures.each_draws (fun clause _ drawn after =>
          useClause_extending (solve_extending kb settings fuel (depth + 1))
            goal bindings drawn (layered.mono after) (old.mono after) clause)
          run ended).1
      have aged := rule.head.ofAge_renamed (run.generation + 1)
      exact ⟨layered.merged_unify old aged (Nat.lt_succ_of_le drawn) unified
          (Nat.le_succ_of_le drawn) (aged.within (Nat.le_refl _)),
        fun goal member => Rule.within_of_mem_body_renamed member⟩
  | first =>
      refine ⟨proper.layered, fun goal member => ?_⟩
      rw [List.mem_singleton.mp member]
      exact proper.old _ List.mem_cons_self
  | @rest fuel depth generation goal rest bindings s before after run run'
      proved found ended =>
      have extending := solve_extending kb settings fuel depth
      obtain ⟨drawn, kept⟩ := extending goal bindings generation proper.layered
        (proper.old goal List.mem_cons_self) run proved
      have oldRest : ∀ later, run.generation ≤ later →
          ∀ goal ∈ rest, goal.Within later := fun later beyond goal member =>
        (proper.old goal (List.mem_cons_of_mem _ member)).mono
          (Nat.le_trans drawn beyond)
      have further : run.generation ≤ run'.generation :=
        (Ensures.each_draws (fun s inside later beyond =>
          conjunction_extending extending rest s later
            ((kept s (found ▸ List.mem_append_left _ inside)).1.mono beyond)
            (oldRest later beyond)) run' ended).1
      have here : s ∈ run.value := by simp [found]
      exact ⟨(kept s here).1.mono further, oldRest _ further⟩

/-- What a proper call returns is acyclic and extends what it was given. -/
theorem Proper.returns {call : Call} (proper : call.Proper)
    {found : List Substitution} (returns : call.Returns kb settings found)
    {s : Substitution} (member : s ∈ found) :
    s.Acyclic ∧ s.Extends call.bindings := by
  obtain ⟨fuel, run, ended, rfl⟩ := returns
  cases call with
  | single depth goal bindings generation =>
      have kept := (solve_extending kb settings fuel depth goal bindings
        generation proper.layered (proper.old goal List.mem_cons_self) run
        ended).2 s member
      exact ⟨kept.1.acyclic, kept.2⟩
  | joint depth goals bindings generation =>
      have kept := (conjunction_extending (solve_extending kb settings fuel depth)
        goals bindings generation proper.layered proper.old run ended).2 s member
      exact ⟨kept.1.acyclic, kept.2⟩

end Call

namespace Resolver

def firstCall (r : Resolver) (query : Predicate) : Call :=
  .single 0 query .empty r.generation

/-- A threaded query is answered by what its first call returns. -/
theorem resolve_of_threaded {r : Resolver}
    (threaded : r.settings.conjunction = .threaded) (query : Predicate)
    (path : Derivation) :
    r.resolve query path =
      ((r.firstCall query).search r.kb r.settings r.kb.horizon r.generation).map
        fun run => (run.value.map (·.answer query),
          { r with
            generation := run.generation
            log := r.log ++ run.log.under path }) := by
  rw [resolve, search, threaded]
  change (Search.bind _ _ _).map _ = Option.map _ _
  rw [Search.bind, firstCall, Call.search]
  cases Threaded.solve r.kb r.settings r.kb.horizon 0 query .empty r.generation with
  | none => rfl
  | some run =>
      change Option.map _ (some (SearchRun.mk _ (run.log ++ {}) _)) = _
      simp only [SearchLog.append_empty, Option.map_some]

/-- A threaded query under a depth limit is answered: its first call ends. -/
theorem resolve_ends {r : Resolver}
    (threaded : r.settings.conjunction = .threaded)
    (limited : r.settings.maxDepth ≠ 0) (query : Predicate)
    (path : Derivation) :
    ∃ run, (r.firstCall query).search r.kb r.settings r.kb.horizon
        r.generation = some run ∧
      ∃ after, r.resolve query path =
        some (run.value.map (·.answer query), after) := by
  obtain ⟨run, ended⟩ := solve_ends (r.kb.nests_of_limit limited)
    (r.kb.limit_lt_horizon r.settings 0) .empty r.generation
  have called : (r.firstCall query).search r.kb r.settings r.kb.horizon
      r.generation = some run := ended
  refine ⟨run, called, { r with
    generation := run.generation
    log := r.log ++ run.log.under path }, ?_⟩
  rw [resolve_of_threaded threaded, called]
  rfl

/-- A call is made while a query is answered, at once or by another call. -/
def Makes (r : Resolver) (query : Predicate) (call : Call) : Prop :=
  r.settings.conjunction = .threaded ∧
    Relation.ReflTransGen (Call.Invokes r.kb r.settings) (r.firstCall query) call

/-- Every call that a plain query leads to is proper. -/
theorem Makes.proper {r : Resolver} {query : Predicate} (plain : query.Plain)
    {call : Call} (made : r.Makes query call) : call.Proper := by
  induction made.2 with
  | refl =>
      refine ⟨Substitution.layered_empty _, fun goal member => ?_⟩
      rw [List.mem_singleton.mp member]
      exact plain.within _
  | tail path step ih => exact (ih ⟨made.1, path⟩).invokes step

/--
Every substitution that is passed to or returned from a call, while a plain
query is answered, is acyclic, and what is returned overwrites no binding of
what was passed.
-/
theorem acyclic_of_makes (r : Resolver) {query : Predicate}
    (plain : query.Plain) {call : Call} (made : r.Makes query call) :
    call.bindings.Acyclic ∧
      ∀ found, call.Returns r.kb r.settings found →
        ∀ s ∈ found, s.Acyclic ∧ s.Extends call.bindings :=
  ⟨(made.proper plain).layered.acyclic,
    fun _ returns _ member => (made.proper plain).returns returns member⟩

/-- The body of a rule is called for with the bindings of its head. -/
theorem acyclic_of_makes_body :
    ∃ call, Resolver.Makes { kb := Example.paths } Example.query call ∧
      call.bindings.get? ⟨"W"⟩ = some (.var ⟨"Y#1"⟩) ∧
      call.bindings.Acyclic ∧
      ∀ found, call.Returns Example.paths {} found →
        ∀ s ∈ found, s.Acyclic ∧ s.Extends call.bindings := by
  have invoked := @Call.Invokes.body Example.paths {} 0 0 0 Example.query
    .empty ⟨[(⟨"X#1"⟩, .const "a"), (⟨"W"⟩, .var ⟨"Y#1"⟩)], by decide⟩ []
    _ _ ⟨[], {}, 0⟩ rfl rfl rfl (by decide +kernel)
  have made : Resolver.Makes { kb := Example.paths } Example.query _ :=
    ⟨rfl, .single invoked⟩
  exact ⟨_, made, by decide +kernel,
    acyclic_of_makes _ Example.plain_query made⟩

end Resolver

end HornLogic
