import HornLogic.Proofs.Ground
import HornLogic.Proofs.Plain

/-!
# Linear predicates

A linear predicate has every variable at one place only.  Unifying linear
predicates without common variables forgets no equation.  A substitution is
unaliased when different variables of one age never end on one variable;
then a linear goal stays linear when it is resolved, and merging the unifier
with a linear fresh head keeps the substitution unaliased.
-/

namespace HornLogic

namespace Predicate

/-- No variable stands at two places. -/
def Linear (p : Predicate) : Prop :=
  p.args.Pairwise fun a b => a.isVar → a ≠ b

instance : DecidablePred Linear := fun p =>
  inferInstanceAs (Decidable (p.args.Pairwise fun a b => a.isVar → a ≠ b))

/-- The place of a variable in a linear predicate is unique. -/
theorem Linear.place_eq {p : Predicate} (linear : p.Linear) {i j : Nat}
    {v : Variable} (first : p.args[i]? = some (.var v))
    (second : p.args[j]? = some (.var v)) : i = j := by
  have apart : ∀ {i j : Nat}, p.args[i]? = some (.var v) →
      p.args[j]? = some (.var v) → ¬ i < j := by
    intro i j first second before
    obtain ⟨hi, left⟩ := List.getElem?_eq_some_iff.mp first
    obtain ⟨hj, right⟩ := List.getElem?_eq_some_iff.mp second
    have differ := List.pairwise_iff_getElem.mp linear i j hi hj before
    rw [left, right] at differ
    exact differ rfl rfl
  exact Nat.le_antisymm (Nat.le_of_not_lt (apart second first))
    (Nat.le_of_not_lt (apart first second))

theorem Linear.renamed {p : Predicate} (linear : p.Linear) (plain : p.Plain)
    (generation : Nat) : (p.renamed generation).Linear := by
  refine List.pairwise_map.mpr (linear.imp_of_mem ?_)
  intro a b left right differ isVar same
  cases a with
  | const name => cases isVar
  | var v =>
      cases b with
      | const name => cases same
      | var w =>
          rw [Term.renamed, Term.renamed, Term.var.injEq] at same
          exact differ rfl (congrArg Term.var
            ((plain.var left).renamed_injective (plain.var right) same))

section Unifier

variable {p q : Predicate} {u : Substitution} (unified : p.unify q = some u)
  (left : p.Linear) (right : q.Linear)
  (disjoint : ∀ v, .var v ∈ p.args → .var v ∉ q.args)
include unified left right disjoint

/-- Each pair of arguments that calls for a binding leaves its own. -/
theorem unify_get? {a b : Term} (facing : p.Facing q a b) {v : Variable}
    {term : Term} (binds : Term.Binds a b v term) : u.get? v = some term := by
  obtain ⟨bound, found⟩ := unify_bound unified facing binds
  obtain ⟨a', b', facing', binds'⟩ := unify_binds unified found
  have members := facing.mem
  have members' := facing'.mem
  obtain ⟨i, ha, hb⟩ := facing
  obtain ⟨j, ha', hb'⟩ := facing'
  cases binds with
  | left =>
      cases binds' with
      | left =>
          rw [left.place_eq ha ha', hb', Option.some.injEq] at hb
          rw [found, hb]
      | right name => exact absurd members'.2 (disjoint v members.1)
  | right name =>
      cases binds' with
      | left => exact absurd members.2 (disjoint v members'.1)
      | right other =>
          rw [right.place_eq hb hb', ha', Option.some.injEq] at ha
          rw [found, ha]

/-- Under an assignment of the unifier the predicates have one instance. -/
theorem ground_eq_of_unify {values : Assignment} (holds : u.Holds values) :
    p.ground values = q.ground values := by
  have agree : ∀ a b, p.Facing q a b → a.value values = b.value values := by
    intro a b facing
    cases a with
    | var v =>
        exact holds v b (unify_get? unified left right disjoint facing
          (.left v b))
    | const name =>
        cases b with
        | const other => exact unify_const unified facing
        | var w =>
            exact (holds w _ (unify_get? unified left right disjoint facing
              (.right name w))).symm
  obtain ⟨names, arities, _⟩ := unify_eq_some unified
  exact map_eq_of_facing names arities fun a b facing =>
    congrArg Term.const (agree a b facing)

end Unifier

end Predicate

namespace Substitution

/-- Different variables of one age never end on one variable. -/
def Unaliased (s : Substitution) : Prop :=
  ∀ v w last, v.age = w.age → s.walk (.var v) = .var last →
    s.walk (.var w) = .var last → v = w

theorem unaliased_empty : empty.Unaliased := by
  intro v w last _ left right
  rw [walk_unbound (get?_empty v)] at left
  rw [walk_unbound (get?_empty w), ← left] at right
  cases right
  rfl

/-- Resolving keeps a linear goal linear if its variables are of one age. -/
theorem Unaliased.resolve {s : Substitution} (unaliased : s.Unaliased)
    {goal : Predicate} {age : Nat} (aged : goal.OfAge age)
    (linear : goal.Linear) : (s.resolve goal).Linear := by
  refine List.pairwise_map.mpr (linear.imp_of_mem ?_)
  intro a b left right differ isVar same
  cases ends : s.walk a with
  | const name =>
      rw [ends] at isVar
      cases isVar
  | var last =>
      rw [ends] at same
      cases a with
      | const name => cases ends
      | var v =>
          cases b with
          | const name => cases same
          | var w =>
              have ages : v.age = w.age := by rw [aged v left, aged w right]
              exact differ rfl (congrArg Term.var
                (unaliased v w last ages ends same.symm))

/-- Where an old variable faces a variable of a new generation, no variable of
the same age as the old one's origin stands already. -/
private theorem not_meets_facing {s : Substitution} {goal head : Predicate}
    {generation fresh : Nat} (layered : s.Layered generation)
    (old : goal.Within generation) (later : generation < fresh)
    {v w x tip : Variable} (ages : v.age = w.age)
    (stays : s.walk (.var v) = .var tip) (moves : s.walk (.var w) = .var x)
    (aged : tip.age = fresh)
    (facing : (s.resolve goal).Facing head (.var x) (.var tip)) : False := by
  have oldEnd : x.age ≤ generation :=
    layered.within.resolve old x facing.mem.1
  by_cases known : v.age ≤ generation
  · have known : (Term.var v).age ≤ generation := known
    have bounded := layered.within.walk known
    rw [stays] at bounded
    have bounded : tip.age ≤ generation := bounded
    omega
  · have unbound : s.get? w = none := layered.within.get?_eq_none (by omega)
    rw [walk_unbound unbound] at moves
    cases moves
    omega

section Merging

variable {s u : Substitution} {goal head : Predicate}
  {generation fresh last : Nat} (layered : s.Layered generation)
  (old : goal.Within generation) (new : head.OfAge fresh)
  (later : generation < fresh)
  (unified : (s.resolve goal).unify head = some u) (linear : head.Linear)
include layered old new later unified linear

/-- A variable of a linear head that faces a variable stays unbound. -/
theorem merged_unbound_of_facing {v w : Variable}
    (facing : (s.resolve goal).Facing head (.var v) (.var w)) :
    (s.merged u).get? w = none := by
  have aged : w.age = fresh := new w facing.mem.2
  have free : s.get? w = none := layered.within.get?_eq_none (by omega)
  have untouched : u.get? w = none := by
    cases bound : u.get? w with
    | none => rfl
    | some next =>
        obtain ⟨a, b, facing', binds⟩ := Predicate.unify_binds unified bound
        cases binds with
        | left =>
            have known : w.age ≤ generation :=
              layered.within.resolve old w facing'.mem.1
            omega
        | right name =>
            obtain ⟨i, hi, hw⟩ := facing
            obtain ⟨j, hj, hw'⟩ := facing'
            rw [linear.place_eq hw hw', hj] at hi
            cases hi
  rw [get?_merged, untouched, free]
  rfl

variable (merged : (s.merged u).Layered last)
include merged

/-- A variable that is unbound before the merging ends where it stands or on
the variable of the head that faces it. -/
theorem walk_merged {v tip : Variable} (unbound : s.get? v = none)
    (ends : (s.merged u).walk (.var v) = .var tip) :
    tip = v ∨ (tip.age = fresh ∧
      (s.resolve goal).Facing head (.var v) (.var tip)) := by
  have bindings : (s.merged u).get? v = u.get? v := by
    rw [get?_merged, unbound, Option.or_none]
  cases found : u.get? v with
  | none =>
      rw [found] at bindings
      rw [walk_unbound bindings] at ends
      cases ends
      exact .inl rfl
  | some term =>
      rw [found] at bindings
      rw [merged.walk_bound bindings] at ends
      cases term with
      | const name => cases ends
      | var w =>
          obtain ⟨a, b, facing, binds⟩ := Predicate.unify_binds unified found
          cases binds with
          | left =>
              have rests := merged_unbound_of_facing layered old new later
                unified linear facing
              rw [walk_unbound rests] at ends
              cases ends
              exact .inr ⟨new _ facing.mem.2, facing⟩

/-- Merging the unifier with a linear head makes no aliases. -/
theorem Unaliased.merged_unify (unaliased : s.Unaliased) :
    (s.merged u).Unaliased := by
  have larger := layered.extends_merged_unify old new later unified
  have path : ∀ {v tip : Variable},
      (s.merged u).walk (.var v) = .var tip →
        ∃ x, s.walk (.var v) = .var x ∧
          (tip = x ∨ (tip.age = fresh ∧
            (s.resolve goal).Facing head (.var x) (.var tip))) := by
    intro v tip ends
    rw [← merged.walk_extends layered larger] at ends
    cases middle : s.walk (.var v) with
    | const name =>
        rw [middle] at ends
        cases ends
    | var x =>
        rw [middle] at ends
        exact ⟨x, rfl, walk_merged layered old new later unified linear merged
          (layered.walk_unbound middle) ends⟩
  intro v w tip ages left right
  obtain ⟨x, walkV, caseV⟩ := path left
  obtain ⟨y, walkW, caseW⟩ := path right
  rcases caseV with rfl | ⟨agedV, facingV⟩
  · rcases caseW with rfl | ⟨agedW, facingW⟩
    · exact unaliased v w _ ages walkV walkW
    · exact (not_meets_facing layered old later ages walkV walkW agedW
        facingW).elim
  · rcases caseW with rfl | ⟨agedW, facingW⟩
    · exact (not_meets_facing layered old later ages.symm walkW walkV agedV
        facingV).elim
    · obtain ⟨i, hx, hi⟩ := facingV
      obtain ⟨j, hy, hj⟩ := facingW
      rw [linear.place_eq hi hj, hy] at hx
      cases hx
      exact unaliased v w x ages walkV walkW

end Merging

end Substitution

/-- Head and goals are linear, each on its own. -/
def Clause.Linear (clause : Clause) : Prop :=
  ∀ p ∈ clause.head :: clause.body, p.Linear

instance : DecidablePred Clause.Linear := fun clause =>
  inferInstanceAs (Decidable (∀ p ∈ clause.head :: clause.body, p.Linear))

def KnowledgeBase.Linear (kb : KnowledgeBase) : Prop :=
  ∀ clause ∈ kb.toList, clause.Linear

instance : DecidablePred KnowledgeBase.Linear := fun kb =>
  inferInstanceAs (Decidable (∀ clause ∈ kb.toList, clause.Linear))

end HornLogic
