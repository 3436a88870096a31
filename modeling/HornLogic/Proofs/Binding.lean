import HornLogic.Substitution
import Mathlib.Data.List.Basic

/-!
# Looking up bindings

What a substitution binds a variable to after each of the operations that
build substitutions.
-/

namespace HornLogic

namespace Substitution

private theorem lookup_cons_other {v w : Variable} (other : v ≠ w)
    (term : Term) (rest : List (Variable × Term)) :
    ((w, term) :: rest).lookup v = rest.lookup v := by
  have differs : (v == w) = false := by simpa using other
  simp only [List.lookup_cons, differs]

/-- Binding a variable decides its own binding only. -/
theorem lookup_put (v : Variable) (term : Term)
    (bindings : List (Variable × Term)) (w : Variable) :
    (put v term bindings).lookup w =
      if w = v then some term else bindings.lookup w := by
  induction bindings with
  | nil =>
      by_cases same : w = v
      · simp [put, same]
      · simp [put, same]
  | cons binding rest ih =>
      obtain ⟨bound, old⟩ := binding
      rw [put]
      by_cases replaced : bound = v
      · rw [if_pos replaced]
        by_cases same : w = v
        · simp [same]
        · have other : w ≠ bound := fun eq => same (eq.trans replaced)
          rw [if_neg same, lookup_cons_other same, lookup_cons_other other]
      · rw [if_neg replaced]
        by_cases here : w = bound
        · have other : w ≠ v := fun eq => replaced (here.symm.trans eq)
          simp [here, replaced]
        · rw [lookup_cons_other here, lookup_cons_other here, ih]

@[simp]
theorem get?_empty (v : Variable) : empty.get? v = none :=
  rfl

theorem applyTerm_bound {s : Substitution} {v : Variable} {term : Term}
    (bound : s.get? v = some term) : s.applyTerm (.var v) = term := by
  rw [applyTerm, bound, Option.getD_some]

theorem applyTerm_unbound {s : Substitution} {v : Variable}
    (unbound : s.get? v = none) : s.applyTerm (.var v) = .var v := by
  rw [applyTerm, unbound, Option.getD_none]

theorem get?_bind (s : Substitution) (v : Variable) (term : Term)
    (w : Variable) :
    (s.bind v term).get? w = if w = v then some term else s.get? w :=
  lookup_put v term s.bindings w

/-- A variable is bound to a term when the pair stands among the bindings. -/
theorem get?_eq_some_iff {s : Substitution} {v : Variable} {term : Term} :
    s.get? v = some term ↔ (v, term) ∈ s.bindings := by
  constructor
  · intro found
    obtain ⟨before, after, split, _⟩ := List.lookup_eq_some_iff.mp found
    rw [split]
    simp
  · intro member
    obtain ⟨before, after, split⟩ := List.append_of_mem member
    refine List.lookup_eq_some_iff.mpr ⟨before, after, split, ?_⟩
    intro binding earlier
    have distinct := s.distinct
    rw [split, List.map_append, List.nodup_append] at distinct
    have differs := distinct.2.2 binding.1 (List.mem_map_of_mem earlier) v
      (by simp)
    simpa using Ne.symm differs

/-- Of pairs for distinct variables, the one for a variable decides. -/
theorem get?_bindAll {pairs : List (Variable × Term)}
    (distinct : (pairs.map Prod.fst).Nodup) (s : Substitution)
    (v : Variable) :
    (s.bindAll pairs).get? v = (pairs.lookup v).or (s.get? v) := by
  induction pairs generalizing s with
  | nil => rfl
  | cons pair rest ih =>
      obtain ⟨w, term⟩ := pair
      rw [List.map_cons, List.nodup_cons] at distinct
      have step : s.bindAll ((w, term) :: rest) = (s.bind w term).bindAll rest :=
        rfl
      rw [step, ih distinct.2, get?_bind]
      by_cases same : v = w
      · subst same
        have absent : rest.lookup v = none := by
          rw [List.lookup_eq_none_iff]
          intro binding member
          have differs : v ≠ binding.1 := by
            rintro rfl
            exact distinct.1 (List.mem_map.mpr ⟨binding, member, rfl⟩)
          simpa using differs
        simp [absent]
      · rw [if_neg same, lookup_cons_other same]

/-- The bindings merged in win over those that were there. -/
theorem get?_merged (s other : Substitution) (v : Variable) :
    (s.merged other).get? v = (other.get? v).or (s.get? v) :=
  get?_bindAll other.distinct s v

/-- Every binding of one substitution is a binding of the other. -/
def Extends (larger smaller : Substitution) : Prop :=
  ∀ v term, smaller.get? v = some term → larger.get? v = some term

namespace Extends

theorem refl (s : Substitution) : s.Extends s :=
  fun _ _ found => found

theorem trans {third second first : Substitution}
    (upper : third.Extends second) (lower : second.Extends first) :
    third.Extends first :=
  fun v term found => upper v term (lower v term found)

end Extends

/-- Every binding that is merged in is there afterwards. -/
theorem merged_extends (s other : Substitution) :
    (s.merged other).Extends other := by
  intro v term found
  rw [get?_merged, found]
  rfl

/-- Merging in bindings of unbound variables overwrites nothing. -/
theorem extends_merged {s other : Substitution}
    (unbound : ∀ v term, other.get? v = some term → s.get? v = none) :
    (s.merged other).Extends s := by
  intro v term found
  rw [get?_merged]
  cases merged : other.get? v with
  | none => simpa using found
  | some replacement =>
      rw [unbound v replacement merged] at found
      cases found

end Substitution

end HornLogic
