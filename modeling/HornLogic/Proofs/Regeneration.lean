import HornLogic.Proofs.Relabel
import Mathlib.Logic.Equiv.Defs

/-!
# Other numbers for generations

A permutation of the numbers of generations moves every renamed variable into
the generation of the new number and keeps the plain variables.  A permutation
can be adjusted at one number of a generation that is not in use yet.
-/

namespace HornLogic

namespace Variable

/-- Move a variable into the generation with the new number. -/
def regenerate (shift : Equiv.Perm Nat) : Variable ↪ Variable where
  toFun v :=
    match v.generation? with
    | none => v
    | some generation => v.renamed (shift generation)
  inj' := by
    intro v w same
    dsimp only at same
    cases hv : v.generation? with
    | none =>
        cases hw : w.generation? with
        | none => simpa [hv, hw] using same
        | some generation =>
            simp only [hv, hw] at same
            rw [same, generation?_renamed] at hv
            cases hv
    | some generation =>
        cases hw : w.generation? with
        | none =>
            simp only [hv, hw] at same
            rw [← same, generation?_renamed] at hw
            cases hw
        | some other =>
            simp only [hv, hw] at same
            obtain ⟨bases, numbers⟩ := renamed_eq_iff.mp same
            have numbers := shift.injective numbers
            rw [generation?_eq_some_iff] at hv hw
            rw [← hv, ← hw]
            exact renamed_eq_iff.mpr ⟨bases, numbers⟩

theorem regenerate_apply (shift : Equiv.Perm Nat) (v : Variable) :
    regenerate shift v =
      match v.generation? with
      | none => v
      | some generation => v.renamed (shift generation) :=
  rfl

theorem regenerate_of_some {shift : Equiv.Perm Nat} {v : Variable}
    {generation : Nat} (found : v.generation? = some generation) :
    regenerate shift v = v.renamed (shift generation) := by
  rw [regenerate_apply, found]

theorem regenerate_of_none {shift : Equiv.Perm Nat} {v : Variable}
    (found : v.generation? = none) : regenerate shift v = v := by
  rw [regenerate_apply, found]

@[simp]
theorem regenerate_renamed (shift : Equiv.Perm Nat) (v : Variable)
    (generation : Nat) :
    regenerate shift (v.renamed generation) = v.renamed (shift generation) := by
  rw [regenerate_of_some (generation?_renamed v generation), renamed_renamed]

theorem Plain.regenerate_eq {v : Variable} (plain : v.Plain)
    (shift : Equiv.Perm Nat) : regenerate shift v = v :=
  regenerate_of_none plain.generation?_eq

/-- A shift keeps what another one did to variables that were known: those up
to an age whose images are up to an age. -/
def Keeps (drawn generation : Nat) (shift shift' : Equiv.Perm Nat) : Prop :=
  ∀ v : Variable, v.age ≤ drawn → (regenerate shift v).age ≤ generation →
    regenerate shift' v = regenerate shift v

namespace Keeps

theorem refl (drawn generation : Nat) (shift : Equiv.Perm Nat) :
    Keeps drawn generation shift shift :=
  fun _ _ _ => rfl

theorem trans {drawn generation drawn' generation' : Nat}
    {first second third : Equiv.Perm Nat}
    (lower : Keeps drawn generation first second)
    (upper : Keeps drawn' generation' second third)
    (grown : drawn ≤ drawn') (later : generation ≤ generation') :
    Keeps drawn generation first third := by
  intro v old known
  have same := lower v old known
  rw [← same] at known
  rw [upper v (Nat.le_trans old grown) (Nat.le_trans known later), same]

end Keeps

/-- Adjust a shift to send the next generation here to the next one there. -/
def advance (shift : Equiv.Perm Nat) (drawn generation : Nat) :
    Equiv.Perm Nat :=
  shift.trans (Equiv.swap (shift (drawn + 1)) (generation + 1))

@[simp]
theorem advance_next (shift : Equiv.Perm Nat) (drawn generation : Nat) :
    advance shift drawn generation (drawn + 1) = generation + 1 := by
  simp [advance]

/-- The adjustment does not affect variables that were known. -/
theorem keeps_advance (shift : Equiv.Perm Nat) (drawn generation : Nat) :
    Keeps drawn generation shift (advance shift drawn generation) := by
  intro v old known
  cases found : v.generation? with
  | none => rw [regenerate_of_none found, regenerate_of_none found]
  | some number =>
      have aged : v.age = number := by simp [age, found]
      rw [regenerate_of_some found, age_renamed] at known
      have before : shift number ≠ shift (drawn + 1) := by
        intro same
        have numbers := shift.injective same
        omega
      have below : shift number ≠ generation + 1 := by omega
      rw [regenerate_of_some found, regenerate_of_some found, advance,
        Equiv.trans_apply, Equiv.swap_apply_of_ne_of_ne before below]

end Variable

namespace Predicate

/-- Shifting a renamed predicate renames it into the other generation. -/
@[simp]
theorem relabel_regenerate_renamed (p : Predicate) (shift : Equiv.Perm Nat)
    (generation : Nat) :
    (p.renamed generation).relabel (Variable.regenerate shift) =
      p.renamed (shift generation) := by
  simp only [relabel, renamed, List.map_map]
  apply map_args_congr
  intro arg _
  cases arg with
  | const name => rfl
  | var v =>
      exact congrArg Term.var (Variable.regenerate_renamed shift v generation)

/-- A shift that keeps known variables keeps a known predicate. -/
theorem relabel_eq_of_keeps {p : Predicate} {drawn generation : Nat}
    {shift shift' : Equiv.Perm Nat}
    (keeps : Variable.Keeps drawn generation shift shift')
    (old : p.Within drawn)
    (known : (p.relabel (Variable.regenerate shift)).Within generation) :
    p.relabel (Variable.regenerate shift') =
      p.relabel (Variable.regenerate shift) := by
  apply relabel_congr
  intro v member
  exact keeps v (old v member) (known _ (List.mem_map.mpr ⟨_, member, rfl⟩))

end Predicate

theorem Substitution.relabel_eq_of_keeps {s : Substitution}
    {drawn generation : Nat} {shift shift' : Equiv.Perm Nat}
    (keeps : Variable.Keeps drawn generation shift shift')
    (old : s.Within drawn)
    (known : (s.relabel (Variable.regenerate shift)).Within generation) :
    s.relabel (Variable.regenerate shift') =
      s.relabel (Variable.regenerate shift) := by
  apply relabel_congr
  intro v term found
  have image : (s.relabel (Variable.regenerate shift)).get?
      (Variable.regenerate shift v) =
        some (term.relabel (Variable.regenerate shift)) := by
    rw [get?_relabel, found]
    rfl
  have bounds := known _ _ image
  refine ⟨keeps v (old v term found).1 bounds.1, ?_⟩
  rintro w rfl
  exact keeps w (old v _ found).2 bounds.2

end HornLogic
