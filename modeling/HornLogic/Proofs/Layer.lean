import HornLogic.Clause
import HornLogic.Proofs.Chain
import HornLogic.Proofs.Equation
import HornLogic.Proofs.Generation
import Mathlib.Logic.Relation

/-!
# Layered substitutions

A substitution is layered when each binding leads from a variable to a
constant or to a strictly newer variable.  Chains of a layered substitution
come to an end at a constant or at an unbound variable.  Unifying a resolved
goal with a head of a generation of its own binds unbound variables only, and
merging the unifier keeps the substitution layered.
-/

namespace HornLogic

def Term.age : Term → Nat
  | .const _ => 0
  | .var v => v.age

namespace Predicate

/-- Arguments that are mapped alike make the same predicate. -/
theorem map_args_congr {name : String} {args : List Term} {f g : Term → Term}
    (alike : ∀ arg ∈ args, f arg = g arg) :
    (⟨name, args.map f⟩ : Predicate) = ⟨name, args.map g⟩ := by
  rw [List.map_congr_left alike]

/-- Arguments that are mapped to themselves make the same predicate. -/
theorem map_args_eq_self {p : Predicate} {f : Term → Term}
    (fixed : ∀ arg ∈ p.args, f arg = arg) : ⟨p.name, p.args.map f⟩ = p := by
  rw [List.map_congr_left fixed, List.map_id']

/-- No variable is newer than a generation. -/
def Within (p : Predicate) (generation : Nat) : Prop :=
  ∀ v, .var v ∈ p.args → v.age ≤ generation

def OfAge (p : Predicate) (generation : Nat) : Prop :=
  ∀ v, .var v ∈ p.args → v.age = generation

theorem Within.mono {p : Predicate} {first second : Nat}
    (within : p.Within first) (later : first ≤ second) : p.Within second :=
  fun v member => Nat.le_trans (within v member) later

theorem OfAge.within {p : Predicate} {first second : Nat}
    (aged : p.OfAge first) (later : first ≤ second) : p.Within second :=
  fun v member => aged v member ▸ later

theorem ofAge_renamed (p : Predicate) (generation : Nat) :
    (p.renamed generation).OfAge generation := by
  intro v member
  obtain ⟨arg, _, image⟩ := List.mem_map.mp member
  cases arg with
  | const name => cases image
  | var w =>
      cases image
      exact Variable.age_renamed w generation

theorem not_mem_of_isGround {p : Predicate} (ground : p.isGround)
    (v : Variable) : .var v ∉ p.args := by
  intro member
  have constant := List.all_eq_true.mp ground (.var v) member
  simp [Term.isVar] at constant

theorem ofAge_of_isGround {p : Predicate} (ground : p.isGround)
    (generation : Nat) : p.OfAge generation :=
  fun v member => absurd member (not_mem_of_isGround ground v)

theorem renamed_of_isGround {p : Predicate} (ground : p.isGround)
    (generation : Nat) : p.renamed generation = p := by
  apply map_args_eq_self
  intro arg member
  cases arg with
  | const name => rfl
  | var v => exact absurd member (not_mem_of_isGround ground v)

theorem Facing.mem {p q : Predicate} {a b : Term} (facing : p.Facing q a b) :
    a ∈ p.args ∧ b ∈ q.args := by
  obtain ⟨place, left, right⟩ := facing
  exact ⟨List.mem_of_getElem? left, List.mem_of_getElem? right⟩

end Predicate

/-- The goals of a renamed rule have variables of its generation only. -/
theorem Rule.within_of_mem_body_renamed {rule : Rule} {generation : Nat}
    {goal : Predicate} (member : goal ∈ (rule.renamed generation).body) :
    goal.Within generation := by
  obtain ⟨written, _, rfl⟩ := List.mem_map.mp member
  exact (written.ofAge_renamed generation).within (Nat.le_refl _)

namespace Substitution

def Within (s : Substitution) (generation : Nat) : Prop :=
  ∀ v term, s.get? v = some term → v.age ≤ generation ∧ term.age ≤ generation

theorem Within.mono {s : Substitution} {first second : Nat}
    (within : s.Within first) (later : first ≤ second) : s.Within second :=
  fun v term found =>
    ⟨Nat.le_trans (within v term found).1 later,
      Nat.le_trans (within v term found).2 later⟩

theorem within_empty (generation : Nat) : empty.Within generation :=
  fun _ _ found => nomatch found

/-- A variable that is newer than the bindings is unbound. -/
theorem Within.get?_eq_none {s : Substitution} {generation : Nat}
    (within : s.Within generation) {v : Variable}
    (newer : generation < v.age) : s.get? v = none := by
  cases bound : s.get? v with
  | none => rfl
  | some term => exact absurd (within v term bound).1 (Nat.not_le_of_lt newer)

theorem Within.walk {s : Substitution} {generation : Nat}
    (within : s.Within generation) {term : Term}
    (old : term.age ≤ generation) : (s.walk term).age ≤ generation :=
  walk_holds (fun v next found => (within v next found).2) old

theorem Within.resolve {s : Substitution} {generation : Nat}
    (within : s.Within generation) {p : Predicate}
    (old : p.Within generation) : (s.resolve p).Within generation := by
  intro v member
  obtain ⟨arg, present, walked⟩ := List.mem_map.mp member
  have young : arg.age ≤ generation := by
    cases arg with
    | const name => exact Nat.zero_le _
    | var w => exact old w present
  have bounded := within.walk young
  rw [walked] at bounded
  exact bounded

theorem Within.merged {s other : Substitution} {generation : Nat}
    (left : s.Within generation) (right : other.Within generation) :
    (s.merged other).Within generation := by
  intro v term found
  rw [get?_merged, Option.or_eq_some_iff] at found
  rcases found with new | ⟨_, old⟩
  · exact right v term new
  · exact left v term old

theorem within_unify {p q : Predicate} {u : Substitution} {generation : Nat}
    (unified : p.unify q = some u) (left : p.Within generation)
    (right : q.Within generation) : u.Within generation := by
  intro v term found
  obtain ⟨a, b, facing, binds⟩ := Predicate.unify_binds unified found
  cases binds with
  | left =>
      refine ⟨left v facing.mem.1, ?_⟩
      cases term with
      | const name => exact Nat.zero_le _
      | var w => exact right w facing.mem.2
  | right name => exact ⟨right v facing.mem.2, Nat.zero_le _⟩

/--
Following bindings never comes back to a variable: a walk follows them to a
constant or to an unbound variable, and resolving twice is resolving once.
-/
structure Acyclic (s : Substitution) : Prop where
  not_cyclic : ∀ v,
    ¬ Relation.TransGen (fun v w => s.get? v = some (.var w)) v v
  leads_walk : ∀ term, ∃ passed, s.Leads passed term (s.walk term)
  walk_unbound : ∀ term v, s.walk term = .var v → s.get? v = none
  resolve_resolve : ∀ p, s.resolve (s.resolve p) = s.resolve p

/-- Bindings lead to constants and to strictly newer variables, all of them
from generations drawn so far. -/
structure Layered (s : Substitution) (generation : Nat) : Prop where
  within : s.Within generation
  rising : ∀ v w, s.get? v = some (.var w) → v.age < w.age

theorem layered_empty (generation : Nat) : empty.Layered generation :=
  ⟨within_empty generation, fun _ _ found => nomatch found⟩

namespace Layered

variable {s : Substitution} {generation : Nat} (layered : s.Layered generation)
include layered

/-- Generations can be drawn without changing the bindings. -/
theorem mono {later : Nat} (after : generation ≤ later) : s.Layered later :=
  ⟨layered.within.mono after, layered.rising⟩

/-- Every chain comes to an end, since its variables get newer and newer. -/
theorem leads (term : Term) : ∃ passed last, s.Leads passed term last := by
  cases term with
  | const name => exact ⟨[], _, .stop fun v same => nomatch same⟩
  | var v =>
      induction remaining : generation - v.age using Nat.strongRecOn
        generalizing v with
      | ind remaining ih =>
          cases found : s.get? v with
          | none =>
              refine ⟨[], _, .stop fun w same => ?_⟩
              cases same
              exact .inl found
          | some next =>
              cases next with
              | const name =>
                  exact ⟨[v], _, .step found (fun same => nomatch same)
                    (.stop fun w same => nomatch same)⟩
              | var w =>
                  have newer : v.age < w.age := layered.rising v w found
                  have bounded : w.age ≤ generation :=
                    (layered.within v _ found).2
                  obtain ⟨passed, last, rest⟩ :=
                    ih (generation - w.age) (by omega) w rfl
                  refine ⟨v :: passed, last, .step found ?_ rest⟩
                  intro same
                  cases same
                  exact Nat.lt_irrefl _ newer

/-- A walk ends on a constant or on an unbound variable. -/
theorem walk_unbound {term : Term} {v : Variable}
    (ends : s.walk term = .var v) : s.get? v = none := by
  obtain ⟨passed, last, leads⟩ := layered.leads term
  rw [leads.walk] at ends
  rcases leads.rests v ends with unbound | fixed
  · exact unbound
  · exact absurd (layered.rising v v fixed) (Nat.lt_irrefl _)

/-- Walking from where a walk ended leads nowhere else. -/
theorem walk_walk (term : Term) : s.walk (s.walk term) = s.walk term := by
  obtain ⟨passed, last, leads⟩ := layered.leads term
  rw [leads.walk]
  exact leads.rests.walk

theorem resolve_resolve (p : Predicate) :
    s.resolve (s.resolve p) = s.resolve p := by
  simp [resolve, layered.walk_walk]

theorem walk_bound {v : Variable} {term : Term}
    (bound : s.get? v = some term) : s.walk (.var v) = s.walk term := by
  obtain ⟨passed, last, leads⟩ := layered.leads term
  have moves : term ≠ .var v := by
    rintro rfl
    exact Nat.lt_irrefl _ (layered.rising v v bound)
  rw [leads.walk, (Leads.step bound moves leads).walk]

/-- Following bindings never comes back to a variable. -/
theorem acyclic : s.Acyclic where
  not_cyclic v := by
    have newer : ∀ w,
        Relation.TransGen (fun v w => s.get? v = some (.var w)) v w →
          v.age < w.age := by
      intro w path
      induction path with
      | single bound => exact layered.rising _ _ bound
      | tail _ bound ih => exact Nat.lt_trans ih (layered.rising _ _ bound)
    exact fun cycle => Nat.lt_irrefl _ (newer v cycle)
  leads_walk term := by
    obtain ⟨passed, last, leads⟩ := layered.leads term
    rw [leads.walk]
    exact ⟨passed, leads⟩
  walk_unbound _ _ := layered.walk_unbound
  resolve_resolve := layered.resolve_resolve

theorem unbound_of_mem_resolve {p : Predicate} {v : Variable}
    (member : .var v ∈ (s.resolve p).args) : s.get? v = none := by
  obtain ⟨arg, _, ends⟩ := List.mem_map.mp member
  exact layered.walk_unbound ends

/-- A walk in a larger layered substitution can start with a walk. -/
theorem walk_extends {smaller : Substitution} {drawn : Nat}
    (lower : smaller.Layered drawn) (extending : s.Extends smaller)
    (term : Term) : s.walk (smaller.walk term) = s.walk term := by
  obtain ⟨passed, last, leads⟩ := lower.leads term
  rw [leads.walk]
  induction leads with
  | stop => rfl
  | step bound _ _ ih => rw [ih, layered.walk_bound (extending _ _ bound)]

section Unifier

variable {goal head : Predicate} {fresh : Nat} {u : Substitution}
  (old : goal.Within generation) (new : head.OfAge fresh)
  (later : generation < fresh)
  (unified : (s.resolve goal).unify head = some u)
include old new later unified

/-- A unifier of a resolved goal and a fresh head binds unbound variables,
each to a constant or to a newer variable. -/
theorem unify_binds {v : Variable} {term : Term}
    (found : u.get? v = some term) :
    s.get? v = none ∧ ∀ w, term = .var w → v.age < w.age := by
  obtain ⟨a, b, facing, binds⟩ := Predicate.unify_binds unified found
  cases binds with
  | left =>
      have aged : v.age ≤ generation :=
        layered.within.resolve old v facing.mem.1
      refine ⟨layered.unbound_of_mem_resolve facing.mem.1, ?_⟩
      rintro w rfl
      have fromHead : w.age = fresh := new w facing.mem.2
      omega
  | right name =>
      have aged : v.age = fresh := new v facing.mem.2
      exact ⟨layered.within.get?_eq_none (by omega),
        fun w same => nomatch same⟩

/-- Merging the unifier overwrites no binding. -/
theorem extends_merged_unify : (s.merged u).Extends s :=
  extends_merged fun _ _ found =>
    (layered.unify_binds old new later unified found).1

/-- Merging the unifier keeps the substitution layered. -/
theorem merged_unify {last : Nat} (reached : generation ≤ last)
    (bounded : head.Within last) : (s.merged u).Layered last := by
  have unifier : u.Within last :=
    within_unify unified ((layered.within.resolve old).mono reached) bounded
  refine ⟨(layered.within.mono reached).merged unifier, ?_⟩
  intro v w found
  rw [get?_merged, Option.or_eq_some_iff] at found
  rcases found with bound | ⟨_, bound⟩
  · exact (layered.unify_binds old new later unified bound).2 w rfl
  · exact layered.rising v w bound

end Unifier

end Layered

end Substitution

end HornLogic
