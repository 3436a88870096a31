import HornLogic.Proofs.Search.Answers
import HornLogic.Proofs.Search.Logging
import HornLogic.Proofs.Unifier

/-!
# The vocabulary of answers

A search invents nothing.  A solution is an instance of its query, and whatever
stands in it stands in the query or in the knowledge base; the threaded search
renames clauses, but of their variables none gets into a solution.  Every step
of a derivation is the head of a clause as it stands in the knowledge base.
-/

namespace HornLogic

/-! ## Known constants -/

/-- The constant is known; variables are not asked for. -/
def Term.Over (known : String → Prop) : Term → Prop
  | .const name => known name
  | .var _ => True

def Predicate.Over (known : String → Prop) (p : Predicate) : Prop :=
  ∀ arg ∈ p.args, arg.Over known

def Clause.Over (known : String → Prop) (clause : Clause) : Prop :=
  ∀ p ∈ clause.head :: clause.body, p.Over known

def KnowledgeBase.Over (known : String → Prop) (kb : KnowledgeBase) : Prop :=
  ∀ clause ∈ kb.toList, clause.Over known

def Substitution.Over (known : String → Prop) (s : Substitution) : Prop :=
  ∀ v term, s.get? v = some term → term.Over known

variable {known : String → Prop}

theorem Predicate.Over.renamed {p : Predicate} (made : p.Over known)
    (generation : Nat) : (p.renamed generation).Over known := by
  intro arg member
  obtain ⟨written, inside, rfl⟩ := List.mem_map.mp member
  cases written with
  | const name => exact made _ inside
  | var v => exact trivial

namespace Substitution

theorem over_empty : empty.Over known :=
  fun _ _ found => nomatch found

theorem Over.resolve {s : Substitution} (made : s.Over known) {p : Predicate}
    (here : p.Over known) : (s.resolve p).Over known := by
  intro arg member
  obtain ⟨written, inside, rfl⟩ := List.mem_map.mp member
  exact walk_holds made (here written inside)

theorem Over.merged {s other : Substitution} (left : s.Over known)
    (right : other.Over known) : (s.merged other).Over known := by
  intro v term found
  rw [get?_merged, Option.or_eq_some_iff] at found
  rcases found with new | ⟨_, old⟩
  · exact right v term new
  · exact left v term old

/-- A unifier binds to arguments of the predicates it unifies. -/
theorem over_unify {p q : Predicate} {u : Substitution}
    (unified : p.unify q = some u) (left : p.Over known)
    (right : q.Over known) : u.Over known := by
  intro v term found
  obtain ⟨a, b, facing, binds⟩ := Predicate.unify_binds unified found
  cases binds with
  | left => exact right _ facing.mem.2
  | right name => exact left _ facing.mem.1

/-- The constants of an answer are those that walks end on. -/
theorem Over.answer {s : Substitution} (made : s.Over known)
    {query : Predicate} (here : query.Over known) :
    (s.answer query).Over known := by
  intro arg member
  obtain ⟨written, inside, rfl⟩ := List.mem_map.mp member
  have last := walk_holds made (here written inside)
  cases ends : s.walk written with
  | const name =>
      rw [answerTerm_of_walk_const ends]
      rwa [ends] at last
  | var v =>
      cases written with
      | const name => cases ends
      | var w =>
          rw [answerTerm_of_walk_var ends]
          exact trivial

end Substitution

namespace Search.Threaded

/-- Given known constants only, a search for goals returns known constants. -/
def Recalling (known : String → Prop)
    (solve : Predicate → Substitution → Search (List Substitution)) : Prop :=
  ∀ (goal : Predicate) (bindings : Substitution) (generation : Nat),
    goal.Over known → bindings.Over known →
      (solve goal bindings).Ensures generation fun found _ =>
        ∀ s ∈ found, s.Over known

section Results

variable {solve : Predicate → Substitution → Search (List Substitution)}
  (recalling : Recalling known solve)
include recalling

theorem conjunction_recalling {goals : List Predicate}
    (here : ∀ goal ∈ goals, goal.Over known) {bindings : Substitution}
    (made : bindings.Over known) (generation : Nat) :
    (conjunction solve goals bindings).Ensures generation fun found _ =>
      ∀ s ∈ found, s.Over known := by
  induction goals generalizing bindings generation with
  | nil =>
      refine .pure fun s member => ?_
      rw [List.mem_singleton.mp member]
      exact made
  | cons goal rest ih =>
      obtain ⟨first, others⟩ := List.forall_mem_cons.mp here
      refine (recalling goal bindings generation first made).bind ?_
      intro extended drawn _ each
      exact .each (fun _ _ _ _ kept => kept) fun s member later _ =>
        ih others (each s member) later

theorem useClause_recalling {clause : Clause} (here : clause.Over known)
    {goal : Predicate} (asked : goal.Over known) {bindings : Substitution}
    (made : bindings.Over known) (generation : Nat) :
    (useClause solve goal bindings clause).Ensures generation fun found _ =>
      ∀ s ∈ found, s.Over known := by
  obtain ⟨head, body⟩ := List.forall_mem_cons.mp here
  apply useClause_ensures
  · exact fun _ _ _ _ _ => List.forall_mem_nil _
  · intro fresh last u _ _ _ _ unified
    have unifier := Substitution.over_unify unified asked (head.renamed fresh)
    refine conjunction_recalling recalling ?_ (made.merged unifier) last
    intro renamed member
    obtain ⟨written, inside, rfl⟩ := List.mem_map.mp member
    exact (body written inside).renamed fresh

end Results

/-- The threaded search returns constants of the knowledge base and of what it
was given. -/
theorem solve_recalling {kb : KnowledgeBase} (here : kb.Over known)
    (settings : SearchSettings) (fuel depth : Nat) :
    Recalling known (solve kb settings fuel depth) := by
  induction fuel generalizing depth with
  | zero => exact fun _ _ _ _ _ => .endless
  | succ fuel ih =>
      intro goal bindings generation asked made
      rw [solve_succ]
      split
      · refine .count_bind _ <| .each (fun _ _ _ _ kept => kept) ?_
        intro clause named drawn _
        have member := (KnowledgeBase.mem_named.mp named).1
        exact useClause_recalling (ih (depth + 1)) (here clause member)
          (made.resolve asked) made drawn
      · exact .count_bind _ <| .pure (List.forall_mem_nil _)

end Search.Threaded

/-! ## Solutions -/

namespace Search.SinglePass

theorem mem_solve_run {kb : KnowledgeBase} {settings : SearchSettings}
    {fuel depth : Nat} {query p : Predicate} {generation : Nat}
    {run : SearchRun (List Predicate)}
    (ended : solve kb settings fuel depth query generation = some run)
    (member : p ∈ run.value) :
    ∃ clause ∈ kb.toList, ∃ u, query.unify clause.head = some u ∧
      p = u.apply query := by
  cases fuel with
  | zero => cases ended
  | succ fuel =>
      rw [solve_succ] at ended
      split at ended
      · obtain ⟨_, rest, hcount, hrest, rfl⟩ := bind_eq_some.mp ended
        cases hcount
        obtain ⟨before, clause, after, first, inner, clauses, _, hclause,
          inside⟩ := mem_each_run hrest member
        have named : clause ∈ kb.named query.name := by simp [clauses]
        refine ⟨clause, (KnowledgeBase.mem_named.mp named).1, ?_⟩
        rcases useClause_run hclause with nothing | ⟨u, unified, same⟩
        · rw [nothing] at inside
          cases inside
        · exact ⟨u, unified, List.mem_singleton.mp (same ▸ inside)⟩
      · obtain ⟨_, rest, _, hrest, rfl⟩ := bind_eq_some.mp ended
        cases hrest
        cases member

end Search.SinglePass

/-- One mapping of variables to terms turns the query into the predicate. -/
def Predicate.IsInstance (p query : Predicate) : Prop :=
  ∃ image, p = ⟨query.name, query.args.map (Term.replace image)⟩

def KnowledgeBase.Mentions (kb : KnowledgeBase) (term : Term) : Prop :=
  ∃ clause ∈ kb.toList, ∃ p ∈ clause.head :: clause.body, term ∈ p.args

namespace Substitution

theorem isInstance_answer (s : Substitution) (query : Predicate) :
    (s.answer query).IsInstance query := by
  refine ⟨fun v => s.answerTerm query.args (.var v), ?_⟩
  apply Predicate.map_args_congr
  intro arg _
  cases arg with
  | const name => exact answerTerm_of_walk_const (s.walk_const name) _
  | var v => rfl

theorem isInstance_apply (s : Substitution) (query : Predicate) :
    (s.apply query).IsInstance query := by
  refine ⟨fun v => s.applyTerm (.var v), ?_⟩
  apply Predicate.map_args_congr
  intro arg _
  cases arg with
  | const name => rfl
  | var v => rfl

/-- One step of a unifier leads to arguments of the predicates it unifies. -/
theorem mem_of_mem_apply {p q : Predicate} {u : Substitution}
    (unified : p.unify q = some u) {arg : Term}
    (member : arg ∈ (u.apply p).args) : arg ∈ p.args ∨ arg ∈ q.args := by
  obtain ⟨written, inside, rfl⟩ := List.mem_map.mp member
  cases written with
  | const name => exact .inl inside
  | var v =>
      cases found : u.get? v with
      | none => exact .inl (by simpa [applyTerm, found] using inside)
      | some term =>
          obtain ⟨a, b, facing, binds⟩ := Predicate.unify_binds unified found
          rw [applyTerm_bound found]
          cases binds with
          | left => exact .inr facing.mem.2
          | right name => exact .inl facing.mem.1

end Substitution

namespace Resolver

open Search

variable {kb : KnowledgeBase} {settings : SearchSettings} {query : Predicate}

/-- A solution is an instance of the query.  Its arguments stand in the query or
in the knowledge base, and in the threaded search its variables stand in the
query. -/
structure Solves (kb : KnowledgeBase) (settings : SearchSettings)
    (query p : Predicate) : Prop where
  isInstance : p.IsInstance query
  mentioned : ∀ arg ∈ p.args, arg ∈ query.args ∨ kb.Mentions arg
  asked : settings.conjunction = .threaded →
    ∀ v, .var v ∈ p.args → .var v ∈ query.args

def vocabulary (kb : KnowledgeBase) (query : Predicate) (name : String) : Prop :=
  .const name ∈ query.args ∨ kb.Mentions (.const name)

theorem over_vocabulary (kb : KnowledgeBase) (query : Predicate) :
    query.Over (vocabulary kb query) ∧ kb.Over (vocabulary kb query) := by
  constructor
  · intro arg member
    cases arg with
    | const name => exact .inl member
    | var v => exact trivial
  · intro clause member p inside arg place
    cases arg with
    | const name => exact .inr ⟨clause, member, p, inside, place⟩
    | var v => exact trivial

/-- Whatever a search finds solves its query. -/
theorem solves_of_search {generation : Nat} {run : SearchRun (List Predicate)}
    (ended : search kb settings query generation = some run) {p : Predicate}
    (member : p ∈ run.value) : Solves kb settings query p := by
  rw [search] at ended
  cases mode : settings.conjunction with
  | threaded =>
      rw [mode] at ended
      obtain ⟨found, last, hfound, hlast, rfl⟩ := bind_eq_some.mp ended
      cases hlast
      obtain ⟨s, inside, rfl⟩ := List.mem_map.mp member
      obtain ⟨queryOver, kbOver⟩ := over_vocabulary kb query
      have made := (Threaded.solve_recalling kbOver settings kb.horizon 0 query
        .empty generation queryOver Substitution.over_empty found hfound).2 s
        inside
      refine ⟨s.isInstance_answer query, ?_, fun _ _ =>
        Substitution.mem_of_mem_answer⟩
      intro arg place
      cases arg with
      | const name => exact made.answer queryOver _ place
      | var v => exact .inl (Substitution.mem_of_mem_answer place)
  | singlePass =>
      rw [mode] at ended
      obtain ⟨clause, known, u, unified, rfl⟩ :=
        SinglePass.mem_solve_run ended member
      refine ⟨u.isInstance_apply query, ?_, fun threaded => ?_⟩
      · intro arg place
        rcases Substitution.mem_of_mem_apply unified place with here | there
        · exact .inl here
        · exact .inr ⟨clause, known, _, List.mem_cons_self, there⟩
      · rw [mode] at threaded
        cases threaded

theorem search_steps (kb : KnowledgeBase) (settings : SearchSettings)
    (query : Predicate) :
    (search kb settings query).Logs fun log =>
      ∀ derivation ∈ log.derivations, ∀ step ∈ derivation,
        ∃ clause ∈ kb.toList, clause.head = step := by
  have logging : Logging kb settings fun _ _ log =>
      ∀ derivation ∈ log.derivations, ∀ step ∈ derivation,
        ∃ clause ∈ kb.toList, clause.head = step :=
    { additive := fun _ _ =>
        ⟨List.forall_mem_nil _, fun here there =>
          List.forall_mem_append.mpr ⟨here, there⟩⟩
      tried := fun _ _ => List.forall_mem_nil _
      givenUp := fun _ _ => List.forall_mem_nil _
      compared := fun _ _ _ _ => List.forall_mem_nil _
      recorded := fun _ clause member => by
        simpa using ⟨clause, member, rfl⟩
      below := fun {_ clause _ _} member _ inner => by
        refine List.forall_mem_map.mpr fun derivation inside => ?_
        exact List.forall_mem_cons.mpr
          ⟨⟨clause, member, rfl⟩, inner derivation inside⟩ }
  exact search_logs logging query

end Resolver

end HornLogic
