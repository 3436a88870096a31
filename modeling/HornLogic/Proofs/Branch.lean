import HornLogic.Proofs.Plain
import HornLogic.Proofs.Regeneration

/-!
# Branches

A branch of a search numbers generations by the clauses used on the branch
alone, so its bindings do not depend on what happened on other branches.  The
bindings of a search that draws its generations in another order are those of
the branch with other numbers; unifying a goal with the head of a clause goes
on in step.
-/

namespace HornLogic

open Variable (regenerate Keeps advance advance_next keeps_advance)

/-- Bindings with the number of clauses that have been used. -/
structure Branch where
  bindings : Substitution
  drawn : Nat

/-- A known predicate: neither it nor its image under other numbers has newer
variables than were drawn. -/
structure Predicate.Known (p : Predicate) (drawn : Nat)
    (shift : Equiv.Perm Nat) (generation : Nat) : Prop where
  within : p.Within drawn
  image : (p.relabel (regenerate shift)).Within generation

namespace Predicate

theorem Known.mono {p : Predicate} {drawn generation drawn' later : Nat}
    {shift : Equiv.Perm Nat} (known : p.Known drawn shift generation)
    (grown : drawn ≤ drawn') (after : generation ≤ later) :
    p.Known drawn' shift later :=
  ⟨known.within.mono grown, known.image.mono after⟩

theorem Known.relabel_eq {p : Predicate} {drawn generation : Nat}
    {shift shift' : Equiv.Perm Nat} (known : p.Known drawn shift generation)
    (keeps : Keeps drawn generation shift shift') :
    p.relabel (regenerate shift') = p.relabel (regenerate shift) :=
  relabel_eq_of_keeps keeps known.within known.image

theorem Known.keeps {p : Predicate} {drawn generation : Nat}
    {shift shift' : Equiv.Perm Nat} (known : p.Known drawn shift generation)
    (keeps : Keeps drawn generation shift shift') :
    p.Known drawn shift' generation := by
  refine ⟨known.within, ?_⟩
  rw [known.relabel_eq keeps]
  exact known.image

theorem known_renamed (p : Predicate) {drawn generation : Nat}
    {shift : Equiv.Perm Nat} (number : shift drawn = generation) :
    (p.renamed drawn).Known drawn shift generation := by
  refine ⟨(p.ofAge_renamed drawn).within (Nat.le_refl _), ?_⟩
  rw [relabel_regenerate_renamed, number]
  exact (p.ofAge_renamed generation).within (Nat.le_refl _)

/-- A predicate in the next generation, here and under the adjusted numbers. -/
theorem relabel_renamed_advance (p : Predicate) (shift : Equiv.Perm Nat)
    (drawn generation : Nat) :
    (p.renamed (drawn + 1)).relabel
        (regenerate (advance shift drawn generation)) =
      p.renamed (generation + 1) := by
  rw [relabel_regenerate_renamed, advance_next]

theorem Plain.relabel_eq {p : Predicate} (plain : p.Plain)
    (shift : Equiv.Perm Nat) : p.relabel (regenerate shift) = p :=
  relabel_eq_self fun _ member => (plain.var member).regenerate_eq shift

theorem Plain.known {p : Predicate} (plain : p.Plain) (drawn : Nat)
    (shift : Equiv.Perm Nat) (generation : Nat) :
    p.Known drawn shift generation := by
  refine ⟨plain.within _, ?_⟩
  rw [plain.relabel_eq]
  exact plain.within _

end Predicate

namespace Branch

def start : Branch :=
  ⟨.empty, 0⟩

/-- Unify a goal, as it stands on the branch, with the head of a clause. -/
def unify (b : Branch) (goal head : Predicate) : Option Substitution :=
  (b.bindings.resolve goal).unify (head.renamed (b.drawn + 1))

def extend (b : Branch) (u : Substitution) : Branch :=
  ⟨b.bindings.merged u, b.drawn + 1⟩

/-- Using a clause adds no newer variables than those of its generation. -/
theorem within_extend {b : Branch} (within : b.bindings.Within b.drawn)
    {goal head : Predicate} (old : goal.Within b.drawn) {u : Substitution}
    (unified : b.unify goal head = some u) :
    (b.extend u).bindings.Within (b.extend u).drawn := by
  have later := Nat.le_succ b.drawn
  refine (within.mono later).merged (Substitution.within_unify unified ?_ ?_)
  · exact (within.resolve old).mono later
  · exact (head.ofAge_renamed _).within (Nat.le_refl _)

/-- The substitution has the bindings of the branch under other numbers. -/
structure Appears (b : Branch) (shift : Equiv.Perm Nat) (s : Substitution)
    (generation : Nat) : Prop where
  image : b.bindings.relabel (regenerate shift) = s
  within : b.bindings.Within b.drawn
  known : s.Within generation

theorem appears_start (shift : Equiv.Perm Nat) (generation : Nat) :
    start.Appears shift .empty generation :=
  ⟨rfl, Substitution.within_empty _, Substitution.within_empty _⟩

namespace Appears

variable {b : Branch} {shift shift' : Equiv.Perm Nat} {s : Substitution}
  {generation : Nat} (appears : b.Appears shift s generation)
include appears

theorem mono {later : Nat} (after : generation ≤ later) :
    b.Appears shift s later :=
  ⟨appears.image, appears.within, appears.known.mono after⟩

/-- Numbers that are kept show the branch by the same bindings. -/
theorem keeps (keeps : Keeps b.drawn generation shift shift') :
    b.Appears shift' s generation := by
  have known := appears.known
  rw [← appears.image] at known
  refine ⟨?_, appears.within, appears.known⟩
  rw [Substitution.relabel_eq_of_keeps keeps appears.within known,
    appears.image]

/-- The answers to a plain query are the same. -/
theorem answer_eq {query : Predicate} (plain : query.Plain) :
    s.answer query = b.bindings.answer query := by
  have renamed := Substitution.answer_relabel (regenerate shift) b.bindings query
  rw [appears.image, plain.relabel_eq] at renamed
  rw [renamed]
  apply Predicate.relabel_eq_self
  intro v member
  exact (plain.var (Substitution.mem_of_mem_answer member)).regenerate_eq shift

/-- Unifying with a head goes on in step. -/
theorem unify_eq (goal head : Predicate) :
    (s.resolve (goal.relabel (regenerate shift))).unify
        ((head.renamed (b.drawn + 1)).relabel (regenerate shift)) =
      (b.unify goal head).map (·.relabel (regenerate shift)) := by
  rw [← appears.image, Substitution.resolve_relabel, Predicate.unify_relabel]
  rfl

theorem extend {goal head : Predicate}
    (known : goal.Known b.drawn shift generation) {u : Substitution}
    (unified : b.unify goal head = some u)
    (fresh : ((head.renamed (b.drawn + 1)).relabel
      (regenerate shift)).Within generation) :
    (b.extend u).Appears shift (s.merged (u.relabel (regenerate shift)))
      generation := by
  refine ⟨?_, within_extend appears.within known.within unified, ?_⟩
  · rw [Branch.extend, Substitution.relabel_merged, appears.image]
  · have unified' := appears.unify_eq goal head
    rw [unified] at unified'
    exact appears.known.merged (Substitution.within_unify unified'
      (appears.known.resolve known.image) fresh)

/-- Unifying with a head in the next generation goes on in step. -/
theorem unify_advance {goal : Predicate}
    (known : goal.Known b.drawn shift generation) (head : Predicate) :
    (s.resolve (goal.relabel (regenerate shift))).unify
        (head.renamed (generation + 1)) =
      (b.unify goal head).map
        (·.relabel (regenerate (advance shift b.drawn generation))) := by
  have kept := keeps_advance shift b.drawn generation
  rw [← (appears.keeps kept).unify_eq, Predicate.relabel_renamed_advance,
    known.relabel_eq kept]

theorem extend_advance {goal head : Predicate}
    (known : goal.Known b.drawn shift generation) {u : Substitution}
    (unified : b.unify goal head = some u) :
    (b.extend u).Appears (advance shift b.drawn generation)
      (s.merged (u.relabel (regenerate (advance shift b.drawn generation))))
      (generation + 1) := by
  have kept := keeps_advance shift b.drawn generation
  have later := Nat.le_succ generation
  refine ((appears.keeps kept).mono later).extend
    ((known.keeps kept).mono (Nat.le_refl _) later) unified ?_
  rw [Predicate.relabel_renamed_advance]
  exact (head.ofAge_renamed _).within (Nat.le_refl _)

end Appears

end Branch

end HornLogic
