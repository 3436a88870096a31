import HornLogic.Proofs.Linear

/-!
# How general a unifier is

A mapping of variables to terms that makes two predicates equal respects every
binding of their unifier, however often and on whichever side a variable stands:
equations may be forgotten, but none is added.  Where no variable stands twice
none is forgotten, and one step of the unifier makes the predicates equal.
-/

namespace HornLogic

def Term.replace (image : Variable → Term) : Term → Term
  | .const name => .const name
  | .var v => image v

namespace Predicate

def replace (image : Variable → Term) (p : Predicate) : Predicate :=
  ⟨p.name, p.args.map (Term.replace image)⟩

variable {p q : Predicate}

theorem Facing.symm {a b : Term} (facing : p.Facing q a b) : q.Facing p b a := by
  obtain ⟨place, left, right⟩ := facing
  exact ⟨place, right, left⟩

/-- Unification fails when names or arities differ or two different constants
face each other. -/
theorem unify_eq_none_iff :
    p.unify q = none ↔ p.name ≠ q.name ∨ p.arity ≠ q.arity ∨
      ∃ a b, p.Facing q (.const a) (.const b) ∧ a ≠ b := by
  rw [← Option.not_isSome_iff_eq_none, unify_isSome_iff]
  simp only [not_and_or, not_forall, exists_prop, ne_eq]

theorem unify_isSome_symm (unified : (p.unify q).isSome) :
    (q.unify p).isSome := by
  obtain ⟨names, arities, agree⟩ := unify_isSome_iff.mp unified
  refine unify_isSome_iff.mpr ⟨names.symm, arities.symm, ?_⟩
  exact fun a b facing => (agree b a facing.symm).symm

/-- Whether two predicates unify does not depend on their order. -/
theorem isSome_unify_comm (p q : Predicate) :
    (p.unify q).isSome = (q.unify p).isSome :=
  Bool.eq_iff_iff.mpr ⟨unify_isSome_symm, unify_isSome_symm⟩

/-- A mapping that makes two predicates equal respects the bindings of their
unifier. -/
theorem replace_of_unify {u : Substitution} (unified : p.unify q = some u)
    {image : Variable → Term} (same : p.replace image = q.replace image)
    {v : Variable} {term : Term} (bound : u.get? v = some term) :
    image v = term.replace image := by
  obtain ⟨a, b, facing, binds⟩ := unify_binds unified bound
  have agree := facing.map_eq (congrArg Predicate.args same)
  cases binds with
  | left => exact agree
  | right name => exact agree.symm

/-- No variable stands at two places of two predicates. -/
def LinearPair (p q : Predicate) : Prop :=
  (p.args ++ q.args).Pairwise fun a b => a.isVar → a ≠ b

instance : Decidable (LinearPair p q) :=
  inferInstanceAs
    (Decidable ((p.args ++ q.args).Pairwise fun a b => a.isVar → a ≠ b))

namespace LinearPair

theorem left (linear : p.LinearPair q) : p.Linear :=
  (List.pairwise_append.mp linear).1

theorem right (linear : p.LinearPair q) : q.Linear :=
  (List.pairwise_append.mp linear).2.1

theorem disjoint (linear : p.LinearPair q) (v : Variable)
    (here : .var v ∈ p.args) : .var v ∉ q.args :=
  fun there => (List.pairwise_append.mp linear).2.2 _ here _ there rfl rfl

variable (linear : p.LinearPair q) {u : Substitution}
  (unified : p.unify q = some u)
include linear unified

/-- Of two variables that face each other only the left one is bound. -/
theorem get?_eq_none {v w : Variable} (facing : p.Facing q (.var v) (.var w)) :
    u.get? w = none := by
  cases found : u.get? w with
  | none => rfl
  | some term =>
      obtain ⟨a, b, facing', binds⟩ := unify_binds unified found
      cases binds with
      | left => exact absurd facing.mem.2 (linear.disjoint w facing'.mem.1)
      | right name =>
          -- At its only place it faces a variable and not a constant.
          obtain ⟨i, hv, hw⟩ := facing
          obtain ⟨j, hname, hw'⟩ := facing'
          rw [linear.right.place_eq hw hw', hname] at hv
          cases hv

/-- One step of the unifier makes facing arguments equal. -/
theorem applyTerm_eq {a b : Term} (facing : p.Facing q a b) :
    u.applyTerm a = u.applyTerm b := by
  have own : ∀ {v : Variable} {term : Term}, Term.Binds a b v term →
      u.get? v = some term := fun binds =>
    unify_get? unified linear.left linear.right linear.disjoint facing binds
  cases a with
  | var v =>
      rw [Substitution.applyTerm_bound (own (.left v b))]
      cases b with
      | const name => rfl
      | var w =>
          have free := linear.get?_eq_none unified facing
          exact (Substitution.applyTerm_unbound free).symm
  | const name =>
      cases b with
      | const other => rw [unify_const unified facing]
      | var w => exact (Substitution.applyTerm_bound (own (.right name w))).symm

/-- One step of the unifier makes the predicates equal. -/
theorem apply_eq : u.apply p = u.apply q := by
  obtain ⟨names, arities, _⟩ := unify_eq_some unified
  exact map_eq_of_facing names arities fun _ _ facing =>
    linear.applyTerm_eq unified facing

end LinearPair

/--
Unification fails exactly when names or arities differ or two different constants
face each other, so its success does not depend on the order.  A unifier adds no
equation: whatever makes the predicates equal respects its bindings.  When no
variable stands at two places, it makes the predicates equal.
-/
theorem unify_general (p q : Predicate) :
    (p.unify q = none ↔ p.name ≠ q.name ∨ p.arity ≠ q.arity ∨
      ∃ a b, p.Facing q (.const a) (.const b) ∧ a ≠ b) ∧
    (p.unify q).isSome = (q.unify p).isSome ∧
    ∀ u, p.unify q = some u →
      (∀ image : Variable → Term, p.replace image = q.replace image →
        ∀ v term, (v, term) ∈ u.bindings → image v = term.replace image) ∧
      (p.LinearPair q → u.apply p = u.apply q) := by
  refine ⟨unify_eq_none_iff, isSome_unify_comm p q, fun u unified => ⟨?_, ?_⟩⟩
  · intro image same v term member
    exact replace_of_unify unified same
      (Substitution.get?_eq_some_iff.mpr member)
  · exact fun linear => linear.apply_eq unified

/-- The first variable loses an equation, and the rest is respected; with a
variable for each place the predicates become equal. -/
theorem unify_general_forgotten :
    (∃ u, (⟨"p", [.var ⟨"X"⟩, .var ⟨"X"⟩]⟩ : Predicate).unify
        ⟨"p", [.var ⟨"Y"⟩, .const "a"]⟩ = some u ∧
      u.bindings = [(⟨"X"⟩, .const "a")] ∧
      ∀ image : Variable → Term,
        (⟨"p", [.var ⟨"X"⟩, .var ⟨"X"⟩]⟩ : Predicate).replace image =
          replace image ⟨"p", [.var ⟨"Y"⟩, .const "a"]⟩ →
        image ⟨"X"⟩ = .const "a") ∧
    ∃ u, (⟨"p", [.var ⟨"X"⟩, .const "b", .var ⟨"Z"⟩]⟩ : Predicate).unify
        ⟨"p", [.const "a", .var ⟨"Y"⟩, .var ⟨"W"⟩]⟩ = some u ∧
      u.apply ⟨"p", [.var ⟨"X"⟩, .const "b", .var ⟨"Z"⟩]⟩ =
        u.apply ⟨"p", [.const "a", .var ⟨"Y"⟩, .var ⟨"W"⟩]⟩ := by
  constructor
  · obtain ⟨u, unified, bindings⟩ := Option.map_eq_some_iff.mp
      (show ((⟨"p", [.var ⟨"X"⟩, .var ⟨"X"⟩]⟩ : Predicate).unify
        ⟨"p", [.var ⟨"Y"⟩, .const "a"]⟩).map (·.bindings) =
          some [(⟨"X"⟩, .const "a")] by decide +kernel)
    refine ⟨u, unified, bindings, fun image same => ?_⟩
    have respected := ((unify_general _ _).2.2 u unified).1 image same
    exact respected ⟨"X"⟩ (.const "a") (by simp [bindings])
  · obtain ⟨u, unified⟩ := Option.isSome_iff_exists.mp
      (show ((⟨"p", [.var ⟨"X"⟩, .const "b", .var ⟨"Z"⟩]⟩ : Predicate).unify
        ⟨"p", [.const "a", .var ⟨"Y"⟩, .var ⟨"W"⟩]⟩).isSome by decide +kernel)
    exact ⟨u, unified,
      ((unify_general _ _).2.2 u unified).2 (by decide +kernel)⟩

end Predicate

end HornLogic
