import HornLogic.Proofs.Matching
import HornLogic.Proofs.Search.Answers

/-!
# Ground queries in both modes

When the head of every clause covers its body, a search for a ground query
only meets ground goals, and it meets the same ones whether it threads bindings
from goal to goal or proves each goal on its own.  The single-pass search
answers a ground query at most once for each clause and the threaded one once
for each proof, but both find something or neither does.
-/

namespace HornLogic

theorem logCongruence_true : LogCongruence fun _ _ => True where
  refl _ := trivial
  append _ _ := trivial
  under _ _ := trivial

namespace Branch

/-- The branch goes on from another one: bindings are kept, and no variable is
newer than the clauses used. -/
structure Continues (later b : Branch) : Prop where
  keeps : later.bindings.Extends b.bindings
  grown : b.drawn ≤ later.drawn
  within : later.bindings.Within later.drawn

theorem Continues.trans {last later b : Branch} (upper : last.Continues later)
    (lower : later.Continues b) : last.Continues b :=
  ⟨upper.keeps.trans lower.keeps, Nat.le_trans lower.grown upper.grown,
    upper.within⟩

/-- The goal stands for a ground query from the branch on. -/
structure Settles (b : Branch) (goal query : Predicate) : Prop where
  known : goal.Within b.drawn
  ground : query.isGround
  resolves : ∀ larger : Substitution, larger.Extends b.bindings →
    larger.resolve goal = query

theorem Settles.mono {later b : Branch} {goal query : Predicate}
    (settles : b.Settles goal query) (continues : later.Continues b) :
    later.Settles goal query :=
  ⟨settles.known.mono continues.grown, settles.ground,
    fun larger extending => settles.resolves larger
      (extending.trans continues.keeps)⟩

theorem settles_start {query : Predicate} (ground : query.isGround) :
    start.Settles query query :=
  ⟨(Predicate.ofAge_of_isGround ground 0).within (Nat.le_refl _), ground,
    fun _ _ => Predicate.map_args_of_isGround ground fun _ => rfl⟩

section Matching

variable {b : Branch} {goal query : Predicate}
  (within : b.bindings.Within b.drawn) (settles : b.Settles goal query)
include settles

/-- On the branch the query itself is unified with the renamed head. -/
theorem Settles.unify_eq (head : Predicate) :
    b.unify goal head = query.unify (head.renamed (b.drawn + 1)) := by
  rw [unify, settles.resolves _ (.refl _)]

variable {head : Predicate} {u' : Substitution}
  (unified : b.unify goal head = some u')
include within unified

/-- The branch goes on when a clause is used: the variables that are bound are
of a generation of their own. -/
theorem continues_extend : (b.extend u').Continues b := by
  refine ⟨Substitution.extends_merged fun v term found => ?_, Nat.le_succ _,
    within_extend within settles.known unified⟩
  rw [settles.unify_eq] at unified
  have fresh := head.ofAge_renamed (b.drawn + 1) v
    (Predicate.mem_head_of_unify settles.ground unified found)
  exact within.get?_eq_none (by omega)

end Matching

/-- A covered goal of a renamed clause stands for what one step makes of it as
it is written. -/
theorem settles_body {b : Branch} {query head written : Predicate}
    (ground : query.isGround) {u u' : Substitution}
    (unified : query.unify head = some u) (copied : u.Copied u' (b.drawn + 1))
    (plain : written.Plain)
    (covered : ∀ arg ∈ written.args, arg.isVar → arg ∈ head.args) :
    (b.extend u').Settles (written.renamed (b.drawn + 1)) (u.apply written) := by
  have grounds := Predicate.grounds_of_covered ground unified covered
  refine ⟨(written.ofAge_renamed _).within (Nat.le_refl _),
    grounds.isGround_apply, fun larger extending => ?_⟩
  exact copied.resolve_renamed plain grounds
    (extending.trans (Substitution.merged_extends _ _))

end Branch

namespace Search

/-! ## Answers and proofs in step -/

/-- The single-pass search answers a ground query by itself or not at all, and
the threaded one has proofs that go on from its branch in the same case. -/
structure Agrees (query : Predicate) (b : Branch) (found : List Predicate)
    (branches : List Branch) : Prop where
  alike : found = [] ↔ branches = []
  same : ∀ answer ∈ found, answer = query
  continues : ∀ later ∈ branches, later.Continues b

/-- A body is proved when it has proofs, and they go on from its branch. -/
structure Confirms (b : Branch) (proved : Bool) (branches : List Branch) :
    Prop where
  alike : proved = false ↔ branches = []
  continues : ∀ later ∈ branches, later.Continues b

section Agreement

variable {query : Predicate} {b : Branch}

theorem agrees_nil : Agrees query b [] [] :=
  ⟨iff_of_true rfl rfl, List.forall_mem_nil _, List.forall_mem_nil _⟩

theorem Agrees.append {found more : List Predicate}
    {branches others : List Branch} (first : Agrees query b found branches)
    (second : Agrees query b more others) :
    Agrees query b (found ++ more) (branches ++ others) := by
  constructor
  · rw [List.append_eq_nil_iff, List.append_eq_nil_iff, first.alike,
      second.alike]
  · exact List.forall_mem_append.mpr ⟨first.same, second.same⟩
  · exact List.forall_mem_append.mpr ⟨first.continues, second.continues⟩

/-- Searches that agree for each element agree for the list. -/
theorem each_agrees {α : Type} {search : α → Search (List Predicate)}
    {search' : α → Search (List Branch)} {inputs : List α}
    (elements : ∀ a ∈ inputs, Coupled (fun _ _ => True) (Agrees query b)
      (search a) (search' a)) :
    Coupled (fun _ _ => True) (Agrees query b) (each search inputs)
      (each search' inputs) := by
  induction inputs with
  | nil => exact .pure logCongruence_true agrees_nil
  | cons a rest ih =>
      obtain ⟨here, there⟩ := List.forall_mem_cons.mp elements
      refine here.bind logCongruence_true fun _ _ first => ?_
      refine (ih there).bind logCongruence_true fun _ _ second => ?_
      exact .pure logCongruence_true (first.append second)

/-- Proofs that go on from a later branch go on from the branch itself. -/
theorem Confirms.of_continues {later : Branch} {proved : Bool}
    {branches : List Branch} (confirmed : Confirms later proved branches)
    (onward : later.Continues b) : Confirms b proved branches :=
  ⟨confirmed.alike, fun last member =>
    (confirmed.continues last member).trans onward⟩

theorem Confirms.append {proved : Bool} {branches others : List Branch}
    (first : Confirms b proved branches) (second : Confirms b proved others) :
    Confirms b proved (branches ++ others) := by
  constructor
  · rw [List.append_eq_nil_iff, ← first.alike, ← second.alike, and_self]
  · exact List.forall_mem_append.mpr ⟨first.continues, second.continues⟩

/-- The rest of a body is proved once by one search, and by the other once after
each proof of the goals before it. -/
theorem each_confirms {α : Type} {left : Search Bool}
    {search : α → Search (List Branch)} {a : α} {rest : List α}
    (elements : ∀ a' ∈ a :: rest, Coupled (fun _ _ => True) (Confirms b) left
      (search a')) :
    Coupled (fun _ _ => True) (Confirms b) left (each search (a :: rest)) where
  both ended ended' := by
    obtain ⟨here, others, hhere, hothers, rfl⟩ := bind_eq_some.mp ended'
    obtain ⟨more, last, hmore, hlast, rfl⟩ := bind_eq_some.mp hothers
    cases hlast
    obtain ⟨first, later⟩ := List.forall_mem_cons.mp elements
    have confirmed := (first.both ended hhere).2
    refine ⟨trivial, ?_⟩
    cases rest with
    | nil =>
        cases hmore
        rwa [List.append_nil]
    | cons a' rest =>
        exact confirmed.append ((each_confirms later).both ended hmore).2

end Agreement

/-! ## The two searches -/

section Clauses

variable {solve : Predicate → Search (List Predicate)}
  {solve' : Predicate → Branch → Search (List Branch)}
  (agrees : ∀ query goal b, b.bindings.Within b.drawn →
    b.Settles goal query →
      Coupled (fun _ _ => True) (Agrees query b) (solve query) (solve' goal b))
include agrees

theorem allProved_confirms {queries goals : List Predicate} {b : Branch}
    (within : b.bindings.Within b.drawn)
    (settles : List.Forall₂ (fun query goal => b.Settles goal query) queries
      goals) :
    Coupled (fun _ _ => True) (Confirms b) (SinglePass.allProved solve queries)
      (Branching.conjunction solve' goals b) := by
  induction queries generalizing goals b with
  | nil =>
      cases settles
      refine .pure logCongruence_true ⟨by simp, ?_⟩
      exact List.forall_mem_singleton.mpr ⟨.refl _, Nat.le_refl _, within⟩
  | cons query queries ih =>
      cases settles with
      | @cons _ goal _ goals first rest =>
          refine (agrees query goal b within first).bind logCongruence_true ?_
          intro found branches agreed
          cases found with
          | nil =>
              rw [agreed.alike.mp rfl]
              exact .pure logCongruence_true
                ⟨iff_of_true rfl rfl, List.forall_mem_nil _⟩
          | cons answer more =>
              cases branches with
              | nil => cases agreed.alike.mpr rfl
              | cons later others =>
                  refine each_confirms fun next member => ?_
                  have onward := agreed.continues next member
                  have settled := rest.imp fun _ _ settles =>
                    settles.mono onward
                  exact (ih onward.within settled).weaken
                    fun _ _ confirmed => confirmed.of_continues onward

/-- What a clause answers and proves, its head having been unified. -/
theorem proceed_agrees {clause : Clause} (plain : clause.Plain)
    (covered : clause.Covered) {query : Predicate} (ground : query.isGround)
    {b : Branch} {u u' : Substitution}
    (unified : query.unify clause.head = some u)
    (copied : u.Copied u' (b.drawn + 1)) (onward : (b.extend u').Continues b) :
    Coupled (fun _ _ => True) (Agrees query b)
      (SinglePass.proceed solve query u clause)
      (Branching.proceed solve' (b.extend u') clause) := by
  have answer : u.apply query = query :=
    Predicate.map_args_of_isGround ground fun _ => rfl
  cases clause with
  | fact fact =>
      refine .record_bind logCongruence_true _ (.pure logCongruence_true ?_)
      rw [answer]
      exact ⟨by simp, List.forall_mem_singleton.mpr rfl,
        List.forall_mem_singleton.mpr onward⟩
  | rule rule =>
      have settles : List.Forall₂
          (fun query goal => (b.extend u').Settles goal query)
          (rule.body.map u.apply)
          (rule.renamed (b.extend u').drawn).body := by
        rw [Rule.renamed, List.forall₂_map_left_iff,
          List.forall₂_map_right_iff, List.forall₂_same]
        intro goal member
        exact Branch.settles_body ground unified copied
          (plain goal (List.mem_cons_of_mem _ member)) (covered goal member)
      refine .bind logCongruence_true (.under logCongruence_true rule.head
        (allProved_confirms agrees onward.within settles)) ?_
      intro proved branches confirmed
      cases proved with
      | false =>
          rw [confirmed.alike.mp rfl]
          exact .pure logCongruence_true agrees_nil
      | true =>
          refine .write_bind logCongruence_true (fun _ => rfl)
            (Threaded.recordEach_run rule.head _) trivial ?_
          refine .pure logCongruence_true ⟨?_, ?_, ?_⟩
          · simpa using confirmed.alike
          · exact List.forall_mem_singleton.mpr answer
          · exact fun later member =>
              (confirmed.continues later member).trans onward

theorem useClause_agrees {clause : Clause} (plain : clause.Plain)
    (covered : clause.Covered) {query goal : Predicate} {b : Branch}
    (within : b.bindings.Within b.drawn) (settles : b.Settles goal query) :
    Coupled (fun _ _ => True) (Agrees query b)
      (SinglePass.useClause solve query clause)
      (Branching.useClause solve' goal b clause) := by
  rw [SinglePass.useClause_eq, Branching.useClause]
  refine .write_bind logCongruence_true (fun _ => rfl) (fun _ => rfl) trivial ?_
  have step := Predicate.unify_renamed settles.ground
    (plain clause.head List.mem_cons_self) (b.drawn + 1)
  rw [← settles.unify_eq] at step
  cases unified : query.unify clause.head with
  | none =>
      rw [unified] at step
      cases unified' : b.unify goal clause.head with
      | none => exact .pure logCongruence_true agrees_nil
      | some u' =>
          rw [unified'] at step
          cases step
  | some u =>
      rw [unified] at step
      cases unified' : b.unify goal clause.head with
      | none =>
          rw [unified'] at step
          cases step
      | some u' =>
          rw [unified'] at step
          cases step with
          | some copied =>
              exact proceed_agrees agrees plain covered settles.ground unified
                copied (Branch.continues_extend within settles unified')

end Clauses

theorem solve_agrees {kb : KnowledgeBase} (plain : kb.Plain)
    (covered : kb.Covered) (limit : UInt64) (fuel fuel' depth : Nat)
    {query goal : Predicate} {b : Branch}
    (within : b.bindings.Within b.drawn) (settles : b.Settles goal query) :
    Coupled (fun _ _ => True) (Agrees query b)
      (SinglePass.solve kb ⟨limit, .singlePass⟩ fuel depth query)
      (Branching.solve kb ⟨limit, .threaded⟩ fuel' depth goal b) := by
  induction fuel generalizing fuel' depth query goal b with
  | zero => exact .endless_left _
  | succ fuel ih =>
      cases fuel' with
      | zero => exact .endless_right _
      | succ fuel' =>
          have name : goal.name = query.name := by
            rw [← settles.resolves _ (.refl _)]
            rfl
          have allows : SearchSettings.allows ⟨limit, .threaded⟩ depth =
              SearchSettings.allows ⟨limit, .singlePass⟩ depth := rfl
          rw [SinglePass.solve_succ, Branching.solve, allows, name]
          split
          · refine .count_bind logCongruence_true _ (each_agrees ?_)
            intro clause member
            have present := (KnowledgeBase.mem_named.mp member).1
            exact useClause_agrees
              (fun _ _ _ within settles => ih fuel' (depth + 1) within settles)
              (plain clause present) (covered clause present) within settles
          · exact .count_bind logCongruence_true _
              (.pure logCongruence_true agrees_nil)

end Search

/-! ## A covered program -/

namespace Example

/-- A hub has an edge to every node, and the head of the rule has one variable
at two places. -/
def hub : KnowledgeBase :=
  ⟨[.fact ⟨"edge", [.const "hub", .var ⟨"X"⟩]⟩,
    .rule ⟨⟨"loop", [.var ⟨"X"⟩, .var ⟨"X"⟩]⟩,
      [⟨"edge", [.const "hub", .var ⟨"X"⟩]⟩,
        ⟨"edge", [.var ⟨"X"⟩, .const "b"]⟩]⟩]⟩

def loop : Predicate :=
  ⟨"loop", [.const "a", .const "hub"]⟩

end Example

namespace Resolver

open Search

/-- The searches for a ground query in both modes find something or nothing
together, and nothing but the query. -/
theorem search_modes_coupled {kb : KnowledgeBase} (plain : kb.Plain)
    (covered : kb.Covered) (limit : UInt64) {query : Predicate}
    (ground : query.isGround) :
    Coupled (fun _ _ => True)
      (fun single threaded => (single = [] ↔ threaded = []) ∧
        (∀ solution ∈ single, solution = query) ∧
        ∀ solution ∈ threaded, solution = query)
      (search kb ⟨limit, .singlePass⟩ query)
      (search kb ⟨limit, .threaded⟩ query) := by
  have plainQuery := Predicate.plain_of_isGround ground
  refine search_coupled plainQuery plainQuery ?_
  have agrees := solve_agrees plain covered limit kb.horizon kb.horizon 0
    (Substitution.within_empty 0) (Branch.settles_start ground)
  have answer : ∀ s : Substitution, s.answer query = query := fun s =>
    Predicate.map_args_of_isGround ground fun _ => rfl
  change Coupled _ _ (SinglePass.solve kb _ kb.horizon 0 query)
    (Branching.solve kb _ kb.horizon 0 query .start >>= fun branches =>
      pure (branches.map (·.bindings.answer query)))
  rw [← bind_pure (SinglePass.solve kb _ kb.horizon 0 query)]
  refine agrees.bind logCongruence_true fun found branches agreed => ?_
  refine .pure logCongruence_true ⟨?_, agreed.same, ?_⟩
  · rw [agreed.alike, List.map_eq_nil_iff]
  · intro solution member
    obtain ⟨b, _, rfl⟩ := List.mem_map.mp member
    exact answer b.bindings

/--
Where heads cover bodies both modes agree on a ground query under a depth
limit: both end, one finds a solution exactly when the other does, and every
solution of either is the query itself.
-/
theorem resolve_modes_agree (r : Resolver) (limited : r.settings.maxDepth ≠ 0)
    (plain : r.kb.Plain) (covered : r.kb.Covered) {query : Predicate}
    (ground : query.isGround) (path : Derivation) :
    ∃ threaded single after after',
      resolve { r with settings := ⟨r.settings.maxDepth, .threaded⟩ } query
        path = some (threaded, after) ∧
      resolve { r with settings := ⟨r.settings.maxDepth, .singlePass⟩ } query
        path = some (single, after') ∧
      (threaded ≠ [] ↔ single ≠ []) ∧
      (∀ solution ∈ threaded, solution = query) ∧
      ∀ solution ∈ single, solution = query := by
  have ends : ∀ mode, (search r.kb ⟨r.settings.maxDepth, mode⟩ query).Ends := by
    intro mode
    apply search_ends
    exact limited
  obtain ⟨run, ended⟩ := ends .threaded r.generation
  obtain ⟨run', ended'⟩ := ends .singlePass r.generation
  obtain ⟨_, alike, single, threaded⟩ := (search_modes_coupled plain covered
    r.settings.maxDepth ground).both ended' ended
  refine ⟨run.value, run'.value, _, _, by rw [resolve, ended]; rfl,
    by rw [resolve, ended']; rfl, not_congr alike.symm, threaded, single⟩

/-- Of the constants that face the variable of the rule the last one counts in
both modes. -/
theorem resolve_modes_agree_loop :
    Example.hub.Plain ∧ Example.hub.Covered ∧
    ∃ threaded single after after',
      resolve { kb := Example.hub, settings := ⟨2, .threaded⟩ } Example.loop
        [] = some (threaded, after) ∧
      resolve { kb := Example.hub, settings := ⟨2, .singlePass⟩ } Example.loop
        [] = some (single, after') ∧
      (threaded ≠ [] ↔ single ≠ []) ∧
      (∀ solution ∈ threaded, solution = Example.loop) ∧
      ∀ solution ∈ single, solution = Example.loop := by
  have plain : Example.hub.Plain := by decide
  have covered : Example.hub.Covered := by decide
  exact ⟨plain, covered, resolve_modes_agree
    { kb := Example.hub, settings := ⟨2, .threaded⟩ } (by decide) plain covered
    (by decide) []⟩

example :
    (resolve { kb := Example.hub, settings := ⟨2, .threaded⟩ } Example.loop
        []).map (·.1) = some [Example.loop] ∧
      (resolve { kb := Example.hub, settings := ⟨2, .singlePass⟩ } Example.loop
        []).map (·.1) = some [Example.loop] := by
  decide +kernel

end Resolver

end HornLogic
