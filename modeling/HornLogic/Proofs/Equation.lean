import HornLogic.Proofs.Binding
import HornLogic.Unify

/-!
# What unification binds

Every binding of a unifier stems from two arguments that face each other,
every pair of arguments that calls for a binding leaves one, though not always
its own, and unification fails only where two different constants meet.
-/

namespace HornLogic

namespace Term

/-- Two terms that are equated call for a binding. -/
inductive Binds : Term → Term → Variable → Term → Prop where
  | left (v : Variable) (term : Term) : Binds (.var v) term v term
  | right (name : String) (v : Variable) :
      Binds (.const name) (.var v) v (.const name)

end Term

namespace Substitution

/-- Equating two terms makes their binding, or they are one constant. -/
theorem equate_cases {s s' : Substitution} {a b : Term}
    (equated : s.equate a b = some s') :
    (∃ v term, Term.Binds a b v term ∧ s' = s.bind v term) ∨
      ((∀ v term, ¬ Term.Binds a b v term) ∧ a = b ∧ s' = s) := by
  cases a with
  | var v =>
      cases equated
      exact .inl ⟨v, b, .left v b, rfl⟩
  | const name =>
      cases b with
      | var v =>
          cases equated
          exact .inl ⟨v, .const name, .right name v, rfl⟩
      | const other =>
          simp only [equate] at equated
          split at equated
          · rename_i same
            cases equated
            exact .inr ⟨(fun _ _ binds => nomatch binds), by rw [same], rfl⟩
          · cases equated

theorem equateAll_cons {s s' : Substitution} {a b : Term}
    {rest : List (Term × Term)}
    (equated : s.equateAll ((a, b) :: rest) = some s') :
    ∃ middle, s.equate a b = some middle ∧ middle.equateAll rest = some s' := by
  simpa [equateAll, Option.bind_eq_some_iff] using equated

/-- A binding was there before or stems from one of the pairs. -/
theorem equateAll_binds {pairs : List (Term × Term)} {s s' : Substitution}
    (equated : s.equateAll pairs = some s') {v : Variable} {term : Term}
    (found : s'.get? v = some term) :
    s.get? v = some term ∨
      ∃ pair ∈ pairs, Term.Binds pair.1 pair.2 v term := by
  induction pairs generalizing s with
  | nil =>
      cases equated
      exact .inl found
  | cons pair rest ih =>
      obtain ⟨a, b⟩ := pair
      obtain ⟨middle, first, others⟩ := equateAll_cons equated
      rcases ih others with before | ⟨later, member, binds⟩
      · rcases equate_cases first with ⟨w, bound, binds, rfl⟩ | ⟨_, _, rfl⟩
        · rw [get?_bind] at before
          split at before
          · rename_i same
            cases before
            exact .inr ⟨(a, b), List.mem_cons_self, same ▸ binds⟩
          · exact .inl before
        · exact .inl before
      · exact .inr ⟨later, List.mem_cons_of_mem _ member, binds⟩

theorem equateAll_bound {pairs : List (Term × Term)} {s s' : Substitution}
    (equated : s.equateAll pairs = some s') {v : Variable}
    (bound : s.get? v ≠ none) : s'.get? v ≠ none := by
  induction pairs generalizing s with
  | nil =>
      cases equated
      exact bound
  | cons pair rest ih =>
      obtain ⟨a, b⟩ := pair
      obtain ⟨middle, first, others⟩ := equateAll_cons equated
      apply ih others
      rcases equate_cases first with ⟨w, term, _, rfl⟩ | ⟨_, _, rfl⟩
      · rw [get?_bind]
        split
        · simp
        · exact bound
      · exact bound

/-- A pair that calls for a binding leaves its variable bound. -/
theorem equateAll_binds_bound {pairs : List (Term × Term)}
    {s s' : Substitution} (equated : s.equateAll pairs = some s')
    {pair : Term × Term} (member : pair ∈ pairs) {v : Variable} {term : Term}
    (binds : Term.Binds pair.1 pair.2 v term) : s'.get? v ≠ none := by
  induction pairs generalizing s with
  | nil => cases member
  | cons first rest ih =>
      obtain ⟨a, b⟩ := first
      obtain ⟨middle, equatedFirst, others⟩ := equateAll_cons equated
      rcases List.mem_cons.mp member with rfl | later
      · apply equateAll_bound others
        cases binds with
        | left =>
            cases equatedFirst
            simp [get?_bind]
        | right =>
            cases equatedFirst
            simp [get?_bind]
      · exact ih others later

/-- Pairs can be equated when no two different constants are a pair. -/
theorem equateAll_isSome_iff {pairs : List (Term × Term)} {s : Substitution} :
    (s.equateAll pairs).isSome ↔
      ∀ a b, (Term.const a, Term.const b) ∈ pairs → a = b := by
  induction pairs generalizing s with
  | nil => simp [equateAll]
  | cons pair rest ih =>
      obtain ⟨left, right⟩ := pair
      cases left with
      | var v => simp [equateAll, equate, ih]
      | const a =>
          cases right with
          | var v => simp [equateAll, equate, ih]
          | const b =>
              by_cases same : a = b
              · subst same
                have step : s.equateAll ((.const a, .const a) :: rest) =
                    s.equateAll rest := by
                  simp [equateAll, equate]
                rw [step, ih]
                constructor
                · intro agree first second member
                  rcases List.mem_cons.mp member with here | later
                  · cases here
                    rfl
                  · exact agree first second later
                · intro agree first second later
                  exact agree first second (List.mem_cons_of_mem _ later)
              · have clash : s.equateAll ((.const a, .const b) :: rest) = none := by
                  simp [equateAll, equate, same]
                rw [clash]
                constructor
                · intro found
                  cases found
                · intro agree
                  exact absurd (agree a b List.mem_cons_self) same

end Substitution

namespace Predicate

/-- The arguments of two predicates at one place. -/
def Facing (p q : Predicate) (a b : Term) : Prop :=
  ∃ place : Nat, p.args[place]? = some a ∧ q.args[place]? = some b

/-- Arguments face each other when they are zipped together. -/
theorem mem_zip_iff_facing {p q : Predicate} {a b : Term} :
    (a, b) ∈ p.args.zip q.args ↔ p.Facing q a b := by
  rw [List.mem_iff_getElem?]
  simp only [List.getElem?_zip_eq_some]
  rfl

theorem Facing.map_eq {p q : Predicate} {a b : Term} (facing : p.Facing q a b)
    {f g : Term → Term} (same : p.args.map f = q.args.map g) : f a = g b := by
  obtain ⟨place, left, right⟩ := facing
  have there := congrArg (fun args : List Term => args[place]?) same
  simpa [left, right] using there

/-- What makes all facing arguments equal makes the predicates equal. -/
theorem map_eq_of_facing {p q : Predicate} (names : p.name = q.name)
    (arities : p.arity = q.arity) {f g : Term → Term}
    (agree : ∀ a b, p.Facing q a b → f a = g b) :
    (⟨p.name, p.args.map f⟩ : Predicate) = ⟨q.name, q.args.map g⟩ := by
  have args : p.args.map f = q.args.map g := by
    refine List.ext_getElem (by simpa [arity] using arities) ?_
    intro place here there
    rw [List.length_map] at here there
    rw [List.getElem_map, List.getElem_map]
    exact agree _ _
      ⟨place, List.getElem?_eq_getElem here, List.getElem?_eq_getElem there⟩
  rw [names, args]

/-- A unifier equates the arguments of two predicates of one name and arity. -/
theorem unify_eq_some {p q : Predicate} {u : Substitution}
    (unified : p.unify q = some u) :
    p.name = q.name ∧ p.arity = q.arity ∧
      Substitution.empty.equateAll (p.args.zip q.args) = some u := by
  rw [unify] at unified
  split at unified
  · rename_i alike
    exact ⟨alike.1, alike.2, unified⟩
  · cases unified

/-- Unification succeeds when names and arities agree and no two different
constants face each other. -/
theorem unify_isSome_iff {p q : Predicate} :
    (p.unify q).isSome ↔
      p.name = q.name ∧ p.arity = q.arity ∧
        ∀ a b, p.Facing q (.const a) (.const b) → a = b := by
  rw [unify]
  split
  · rename_i alike
    simp only [Substitution.equateAll_isSome_iff, mem_zip_iff_facing]
    exact ⟨fun agree => ⟨alike.1, alike.2, agree⟩, fun all => all.2.2⟩
  · rename_i differ
    constructor
    · intro found
      cases found
    · intro all
      exact absurd ⟨all.1, all.2.1⟩ differ

section Unifier

variable {p q : Predicate} {u : Substitution} (unified : p.unify q = some u)
include unified

/-- A binding of a unifier stems from arguments facing each other. -/
theorem unify_binds {v : Variable} {term : Term}
    (found : u.get? v = some term) :
    ∃ a b, p.Facing q a b ∧ Term.Binds a b v term := by
  rcases Substitution.equateAll_binds (unify_eq_some unified).2.2 found with
    before | ⟨pair, member, binds⟩
  · cases before
  · exact ⟨pair.1, pair.2, mem_zip_iff_facing.mp member, binds⟩

/-- Facing arguments that call for a binding leave their variable bound. -/
theorem unify_bound {a b : Term} (facing : p.Facing q a b) {v : Variable}
    {term : Term} (binds : Term.Binds a b v term) :
    ∃ bound, u.get? v = some bound := by
  have found := Substitution.equateAll_binds_bound (unify_eq_some unified).2.2
    (mem_zip_iff_facing.mpr facing) binds
  exact Option.ne_none_iff_exists'.mp found

/-- Constants that face each other are equal. -/
theorem unify_const {a b : String}
    (facing : p.Facing q (.const a) (.const b)) : a = b := by
  have succeeds : (p.unify q).isSome := by simp [unified]
  exact (unify_isSome_iff.mp succeeds).2.2 a b facing

end Unifier

end Predicate

end HornLogic
