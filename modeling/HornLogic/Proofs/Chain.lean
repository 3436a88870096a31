import HornLogic.Proofs.Binding
import Mathlib.Data.List.Perm.Subperm

/-!
# Chains of bindings

A chain follows bindings from a term to where following comes to rest.  No
chain passes a variable twice, so a chain is no longer than the substitution
and the bounded walk follows it to its end.
-/

namespace HornLogic

namespace Substitution

/-- Following rests at a constant, at an unbound variable and at a variable
that is bound to itself. -/
def Rests (s : Substitution) (term : Term) : Prop :=
  ∀ v, term = .var v → s.get? v = none ∨ s.get? v = some (.var v)

/-- A chain of bindings with the variables it passes and its end. -/
inductive Leads (s : Substitution) : List Variable → Term → Term → Prop where
  | stop {term : Term} (rests : s.Rests term) : Leads s [] term term
  | step {v : Variable} {next last : Term} {passed : List Variable}
      (bound : s.get? v = some next) (moves : next ≠ .var v)
      (rest : Leads s passed next last) :
      Leads s (v :: passed) (.var v) last

theorem Rests.follow {s : Substitution} {term : Term} (rests : s.Rests term)
    (steps : Nat) : s.follow steps term = term := by
  cases steps with
  | zero => rfl
  | succ steps =>
      cases term with
      | const name => rfl
      | var v =>
          rcases rests v rfl with unbound | fixed
          · simp [Substitution.follow, unbound]
          · simp [Substitution.follow, fixed]

theorem Rests.walk {s : Substitution} {term : Term} (rests : s.Rests term) :
    s.walk term = term :=
  rests.follow _

@[simp]
theorem walk_const (s : Substitution) (name : String) :
    s.walk (.const name) = .const name :=
  rfl

theorem walk_unbound {s : Substitution} {v : Variable}
    (unbound : s.get? v = none) : s.walk (.var v) = .var v := by
  apply Rests.walk
  intro w same
  cases same
  exact .inl unbound

theorem resolve_empty (p : Predicate) : empty.resolve p = p := by
  have kept : empty.walk = id := by
    funext term
    cases term with
    | const name => exact walk_const empty name
    | var v => exact walk_unbound rfl
  rw [resolve, kept, List.map_id]

/-- What holds of a term and of every bound term holds of the end of a walk. -/
theorem walk_holds {s : Substitution} {holds : Term → Prop}
    (bound : ∀ v next, s.get? v = some next → holds next) {term : Term}
    (start : holds term) : holds (s.walk term) := by
  suffices follow : ∀ steps term, holds term → holds (s.follow steps term) from
    follow _ term start
  intro steps
  induction steps with
  | zero => exact fun _ here => here
  | succ steps ih =>
      intro term here
      cases term with
      | const name => exact here
      | var v =>
          rw [Substitution.follow]
          cases found : s.get? v with
          | none => exact here
          | some next =>
              dsimp only
              split
              · exact here
              · exact ih next (bound v next found)

namespace Leads

variable {s : Substitution} {passed : List Variable} {term last : Term}

/-- Enough steps follow a chain to its end. -/
theorem follow (leads : s.Leads passed term last) {steps : Nat}
    (enough : passed.length ≤ steps) : s.follow steps term = last := by
  induction leads generalizing steps with
  | stop rests => exact rests.follow steps
  | @step v next last passed bound moves rest ih =>
      cases steps with
      | zero => cases enough
      | succ steps =>
          have shorter : passed.length ≤ steps := Nat.le_of_succ_le_succ enough
          simp [Substitution.follow, bound, moves, ih shorter]

/-- The end of a chain is at rest. -/
theorem rests (leads : s.Leads passed term last) : s.Rests last := by
  induction leads with
  | stop rests => exact rests
  | step bound moves rest ih => exact ih

/-- The bindings determine the chain from a term. -/
theorem unique (leads : s.Leads passed term last) {others : List Variable}
    {tip : Term} (leads' : s.Leads others term tip) :
    passed = others ∧ last = tip := by
  induction leads generalizing others tip with
  | stop rests =>
      cases leads' with
      | stop => exact ⟨rfl, rfl⟩
      | @step v next _ _ bound moves rest =>
          rcases rests v rfl with unbound | fixed
          · rw [unbound] at bound
            cases bound
          · rw [fixed] at bound
            cases bound
            exact absurd rfl moves
  | @step v next last passed bound moves rest ih =>
      cases leads' with
      | stop rests =>
          rcases rests v rfl with unbound | fixed
          · rw [unbound] at bound
            cases bound
          · rw [fixed] at bound
            cases bound
            exact absurd rfl moves
      | step bound' moves' rest' =>
          rw [bound] at bound'
          cases bound'
          obtain ⟨rfl, rfl⟩ := ih rest'
          exact ⟨rfl, rfl⟩

/-- A chain goes on from each variable it passes, by fewer further ones. -/
theorem from_passed (leads : s.Leads passed term last) {v : Variable}
    (member : v ∈ passed) :
    ∃ further, further.length < passed.length ∧
      s.Leads (v :: further) (.var v) last := by
  induction leads with
  | stop rests => cases member
  | @step w next last passed bound moves rest ih =>
      rcases List.mem_cons.mp member with rfl | later
      · exact ⟨passed, Nat.lt_succ_self _, .step bound moves rest⟩
      · obtain ⟨further, shorter, tail⟩ := ih later
        exact ⟨further, Nat.lt_succ_of_lt shorter, tail⟩

/-- No chain passes a variable twice: from there on it would be its own tail. -/
theorem nodup (leads : s.Leads passed term last) : passed.Nodup := by
  induction leads with
  | stop rests => exact List.nodup_nil
  | @step v next last passed bound moves rest ih =>
      refine List.nodup_cons.mpr ⟨fun again => ?_, ih⟩
      obtain ⟨further, shorter, tail⟩ := rest.from_passed again
      have same := (tail.unique (.step bound moves rest)).1
      rw [List.cons.injEq] at same
      rw [same.2] at shorter
      exact Nat.lt_irrefl _ shorter

/-- Every variable that a chain passes is bound. -/
theorem passed_bound (leads : s.Leads passed term last) {v : Variable}
    (member : v ∈ passed) : ∃ next, s.get? v = some next := by
  obtain ⟨further, _, tail⟩ := leads.from_passed member
  cases tail with
  | step bound => exact ⟨_, bound⟩

/-- A chain is no longer than the substitution. -/
theorem length_le (leads : s.Leads passed term last) :
    passed.length ≤ s.size := by
  have included : passed ⊆ s.bindings.map Prod.fst := by
    intro v member
    obtain ⟨next, bound⟩ := leads.passed_bound member
    exact List.mem_map.mpr ⟨(v, next), get?_eq_some_iff.mp bound, rfl⟩
  have fits := (List.subperm_of_subset leads.nodup included).length_le
  simpa [size] using fits

theorem walk (leads : s.Leads passed term last) : s.walk term = last :=
  leads.follow (Nat.le_succ_of_le leads.length_le)

end Leads

theorem answerTerm_of_walk_const {s : Substitution} {arg : Term}
    {name : String} (ends : s.walk arg = .const name) (query : List Term) :
    s.answerTerm query arg = .const name := by
  cases arg with
  | const other => simpa [answerTerm] using ends
  | var v => simp [answerTerm, ends]

/-- An argument that walks to a variable is answered by the first argument
that reaches the variable. -/
theorem answerTerm_of_walk_var {s : Substitution} {v last : Variable}
    (ends : s.walk (.var v) = .var last) (query : List Term) :
    s.answerTerm query (.var v) =
      .var ((s.firstReaching last query).getD v) := by
  simp [answerTerm, ends]

/-- The variable that names an end is an argument, and its chain ends there. -/
theorem firstReaching_spec {s : Substitution} {last v : Variable}
    {args : List Term} (found : s.firstReaching last args = some v) :
    .var v ∈ args ∧ s.walk (.var v) = .var last := by
  induction args with
  | nil => cases found
  | cons arg rest ih =>
      cases arg with
      | const name =>
          exact ⟨List.mem_cons_of_mem _ (ih found).1, (ih found).2⟩
      | var w =>
          rw [firstReaching] at found
          split at found
          · rename_i reaches
            cases found
            exact ⟨List.mem_cons_self, reaches⟩
          · exact ⟨List.mem_cons_of_mem _ (ih found).1, (ih found).2⟩

/-- The end of an argument's chain is named. -/
theorem firstReaching_isSome {s : Substitution} {v last : Variable}
    {args : List Term} (member : .var v ∈ args)
    (ends : s.walk (.var v) = .var last) :
    ∃ w, s.firstReaching last args = some w := by
  induction args with
  | nil => cases member
  | cons arg rest ih =>
      cases arg with
      | const name =>
          rcases List.mem_cons.mp member with same | later
          · cases same
          · exact ih later
      | var w =>
          rw [firstReaching]
          split
          · exact ⟨w, rfl⟩
          · rename_i misses
            rcases List.mem_cons.mp member with same | later
            · cases same
              exact absurd ends misses
            · exact ih later

/-- An answer has variables of its query only. -/
theorem mem_of_mem_answer {s : Substitution} {query : Predicate}
    {v : Variable} (member : .var v ∈ (s.answer query).args) :
    .var v ∈ query.args := by
  obtain ⟨arg, inside, value⟩ := List.mem_map.mp member
  cases ends : s.walk arg with
  | const name =>
      rw [answerTerm_of_walk_const ends] at value
      cases value
  | var last =>
      cases arg with
      | const name => cases ends
      | var w =>
          rw [answerTerm_of_walk_var ends, Term.var.injEq] at value
          rw [← value]
          cases found : s.firstReaching last query.args with
          | none => exact inside
          | some name => exact (firstReaching_spec found).1

end Substitution

end HornLogic
