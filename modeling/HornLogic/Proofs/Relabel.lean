import HornLogic.Proofs.Chain
import HornLogic.Proofs.Equation
import HornLogic.Proofs.Layer
import Mathlib.Data.List.Nodup
import Mathlib.Logic.Embedding.Basic
import Mathlib.Logic.Equiv.Basic

/-!
# Changing the names of variables

An injective change of variable names commutes with every operation on
substitutions: lookup, merging, walking, resolving, answering and unifying.
The changes that a search is subject to give other numbers to the
generations; they keep plain variables.
-/

namespace HornLogic

namespace Term

def relabel (names : Variable → Variable) : Term → Term
  | .const name => .const name
  | .var v => .var (names v)

@[simp]
theorem relabel_const (names : Variable → Variable) (name : String) :
    (const name).relabel names = const name :=
  rfl

@[simp]
theorem relabel_var (names : Variable → Variable) (v : Variable) :
    (var v).relabel names = var (names v) :=
  rfl

theorem relabel_injective (names : Variable ↪ Variable) :
    Function.Injective (relabel names) := by
  intro a b same
  cases a with
  | const name =>
      cases b with
      | const other => exact same
      | var w => cases same
  | var v =>
      cases b with
      | const other => cases same
      | var w =>
          rw [relabel_var, relabel_var, Term.var.injEq] at same
          rw [names.injective same]

end Term

namespace Predicate

def relabel (p : Predicate) (names : Variable → Variable) : Predicate :=
  ⟨p.name, p.args.map (Term.relabel names)⟩

/-- Only the names of the variables that occur matter. -/
theorem relabel_congr {p : Predicate} {names others : Variable → Variable}
    (agree : ∀ v, .var v ∈ p.args → names v = others v) :
    p.relabel names = p.relabel others := by
  apply map_args_congr
  intro arg member
  cases arg with
  | const name => rfl
  | var v => exact congrArg Term.var (agree v member)

theorem relabel_eq_self {p : Predicate} {names : Variable → Variable}
    (fixed : ∀ v, .var v ∈ p.args → names v = v) : p.relabel names = p := by
  apply map_args_eq_self
  intro arg member
  cases arg with
  | const name => rfl
  | var v => exact congrArg Term.var (fixed v member)

end Predicate

namespace Substitution

/-- Give other names to all variables, to the bound ones and in the terms. -/
def relabel (s : Substitution) (names : Variable ↪ Variable) : Substitution where
  bindings := s.bindings.map fun binding =>
    (names binding.1, binding.2.relabel names)
  distinct := by
    rw [List.map_map]
    have keys := List.Nodup.map names.injective s.distinct
    rwa [List.map_map] at keys

theorem eq_of_bindings {s t : Substitution} (same : s.bindings = t.bindings) :
    s = t := by
  cases s
  cases t
  cases same
  rfl

section Names

variable (names : Variable ↪ Variable)

@[simp]
theorem size_relabel (s : Substitution) : (s.relabel names).size = s.size := by
  simp [size, relabel]

@[simp]
theorem get?_relabel (s : Substitution) (v : Variable) :
    (s.relabel names).get? (names v) =
      (s.get? v).map (Term.relabel names) := by
  change (s.bindings.map fun binding =>
      (names binding.1, binding.2.relabel names)).lookup (names v) =
    (s.bindings.lookup v).map (Term.relabel names)
  induction s.bindings with
  | nil => rfl
  | cons binding rest ih =>
      rw [List.map_cons, List.lookup_cons, List.lookup_cons]
      by_cases same : v = binding.1
      · simp [same]
      · have apart : names v ≠ names binding.1 :=
          fun eq => same (names.injective eq)
        have left : (names v == names binding.1) = false := by simpa using apart
        have right : (v == binding.1) = false := by simpa using same
        rw [left, right]
        exact ih

theorem relabel_bind (s : Substitution) (v : Variable) (term : Term) :
    (s.bind v term).relabel names =
      (s.relabel names).bind (names v) (term.relabel names) := by
  apply eq_of_bindings
  simp only [relabel, bind]
  induction s.bindings with
  | nil => rfl
  | cons binding rest ih =>
      obtain ⟨w, old⟩ := binding
      by_cases same : w = v
      · simp [put, same]
      · have apart : names w ≠ names v := fun eq => same (names.injective eq)
        simp only [put, if_neg same, if_neg apart, List.map_cons, ih]

theorem relabel_bindAll (pairs : List (Variable × Term)) (s : Substitution) :
    (s.bindAll pairs).relabel names =
      (s.relabel names).bindAll (pairs.map fun pair =>
        (names pair.1, pair.2.relabel names)) := by
  induction pairs generalizing s with
  | nil => rfl
  | cons pair rest ih =>
      calc ((s.bind pair.1 pair.2).bindAll rest).relabel names
          = ((s.bind pair.1 pair.2).relabel names).bindAll
              (rest.map fun pair => (names pair.1, pair.2.relabel names)) :=
            ih _
        _ = _ := by rw [relabel_bind]; rfl

theorem relabel_merged (s other : Substitution) :
    (s.merged other).relabel names =
      (s.relabel names).merged (other.relabel names) :=
  relabel_bindAll names other.bindings s

theorem walk_relabel (s : Substitution) (term : Term) :
    (s.relabel names).walk (term.relabel names) =
      (s.walk term).relabel names := by
  rw [walk, walk, size_relabel]
  induction s.size + 1 generalizing term with
  | zero => rfl
  | succ steps ih =>
      cases term with
      | const name => rfl
      | var v =>
          simp only [Term.relabel_var, follow, get?_relabel]
          cases found : s.get? v with
          | none => rfl
          | some next =>
              dsimp only [Option.map_some]
              by_cases stays : next = .var v
              · rw [if_pos stays, stays]
                simp
              · have moves : next.relabel names ≠ .var (names v) :=
                  fun eq => stays (Term.relabel_injective names eq)
                rw [if_neg stays, if_neg moves]
                exact ih next

theorem resolve_relabel (s : Substitution) (p : Predicate) :
    (s.relabel names).resolve (p.relabel names) =
      (s.resolve p).relabel names := by
  simp only [resolve, Predicate.relabel, List.map_map]
  apply Predicate.map_args_congr
  intro arg _
  exact walk_relabel names s arg

theorem firstReaching_relabel (s : Substitution) (last : Variable)
    (args : List Term) :
    (s.relabel names).firstReaching (names last)
        (args.map (Term.relabel names)) =
      (s.firstReaching last args).map names := by
  induction args with
  | nil => rfl
  | cons arg rest ih =>
      cases arg with
      | const name => exact ih
      | var v =>
          have walked := walk_relabel names s (.var v)
          rw [Term.relabel_var] at walked
          simp only [List.map_cons, Term.relabel_var, firstReaching, walked]
          by_cases reaches : s.walk (.var v) = .var last
          · rw [if_pos reaches, reaches]
            simp
          · have misses :
                (s.walk (.var v)).relabel names ≠ .var (names last) :=
              fun eq => reaches (Term.relabel_injective names eq)
            rw [if_neg reaches, if_neg misses]
            exact ih

theorem answer_relabel (s : Substitution) (query : Predicate) :
    (s.relabel names).answer (query.relabel names) =
      (s.answer query).relabel names := by
  simp only [answer, Predicate.relabel, List.map_map]
  apply Predicate.map_args_congr
  intro arg _
  have walked := walk_relabel names s arg
  cases ends : s.walk arg with
  | const name =>
      rw [ends] at walked
      simp only [Function.comp_apply, answerTerm_of_walk_const ends,
        answerTerm_of_walk_const walked]
      rfl
  | var last =>
      cases arg with
      | const name => cases ends
      | var v =>
          rw [ends] at walked
          simp only [Function.comp_apply, answerTerm_of_walk_var ends,
            Term.relabel_var] at walked ⊢
          rw [answerTerm_of_walk_var walked, firstReaching_relabel]
          cases s.firstReaching last query.args <;> rfl

theorem relabel_congr {s : Substitution} {names others : Variable ↪ Variable}
    (agree : ∀ v term, s.get? v = some term →
      names v = others v ∧ ∀ w, term = .var w → names w = others w) :
    s.relabel names = s.relabel others := by
  apply eq_of_bindings
  apply List.map_congr_left
  intro binding member
  obtain ⟨key, value⟩ :=
    agree binding.1 binding.2 (get?_eq_some_iff.mpr member)
  rw [key]
  cases term : binding.2 with
  | const name => rfl
  | var w => rw [Term.relabel, Term.relabel, value w term]

theorem equate_relabel (s : Substitution) (a b : Term) :
    (s.relabel names).equate (a.relabel names) (b.relabel names) =
      (s.equate a b).map (·.relabel names) := by
  cases a with
  | var v => simp [equate, relabel_bind]
  | const name =>
      cases b with
      | var v => simp [equate, relabel_bind]
      | const other =>
          simp only [equate, Term.relabel_const]
          split <;> rfl

theorem equateAll_relabel (pairs : List (Term × Term)) (s : Substitution) :
    (s.relabel names).equateAll
        (pairs.map fun pair => (pair.1.relabel names, pair.2.relabel names)) =
      (s.equateAll pairs).map (·.relabel names) := by
  induction pairs generalizing s with
  | nil => rfl
  | cons pair rest ih =>
      simp only [List.map_cons, equateAll, equate_relabel]
      cases s.equate pair.1 pair.2 with
      | none => rfl
      | some middle => exact ih middle

end Names

end Substitution

/-- Unifying after a change of names is changing the names of a unifier. -/
theorem Predicate.unify_relabel (names : Variable ↪ Variable)
    (p q : Predicate) :
    (p.relabel names).unify (q.relabel names) =
      (p.unify q).map (·.relabel names) := by
  have arities : ∀ r : Predicate, (r.relabel names).arity = r.arity := by
    simp [arity, relabel]
  rw [unify, unify, arities, arities]
  by_cases alike : p.name = q.name ∧ p.arity = q.arity
  · have zipped : (p.relabel names).args.zip (q.relabel names).args =
        (p.args.zip q.args).map fun pair =>
          (pair.1.relabel names, pair.2.relabel names) :=
      List.zip_map
    have renamed : (p.relabel names).name = (q.relabel names).name ∧
        p.arity = q.arity := alike
    rw [if_pos alike, if_pos renamed, zipped]
    exact Substitution.equateAll_relabel names _ Substitution.empty
  · have renamed : ¬ ((p.relabel names).name = (q.relabel names).name ∧
        p.arity = q.arity) := alike
    rw [if_neg alike, if_neg renamed]
    rfl

end HornLogic
