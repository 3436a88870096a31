import HornLogic.Proofs.Chain
import Mathlib.Data.Finset.Card
import Mathlib.Dynamics.PeriodicPts.Defs

/-!
# Where walks end

A walk follows one binding more than there are.  That takes it to the end of its
chain, if the chain has one.  A chain without an end comes back to a variable it
has passed, since each of its variables is bound; from there on it goes round, and
the walk stops somewhere on the cycle.
-/

namespace HornLogic

namespace Substitution

/-! ## Following bindings -/

/-- A binding takes a variable to the term it is bound to. -/
def Links (s : Substitution) (term next : Term) : Prop :=
  ∃ v, term = .var v ∧ s.get? v = some next

abbrev Reaches (s : Substitution) : Term → Term → Prop :=
  Relation.ReflTransGen s.Links

/-- Two terms or more, each bound to the next one and the last to the first. -/
structure Circular (s : Substitution) (cycle : Cycle Term) : Prop where
  distinct : cycle.Nodup
  several : cycle.Nontrivial
  linked : cycle.Chain s.Links

variable {s : Substitution} {term next last : Term}

theorem Links.applyTerm (links : s.Links term next) : s.applyTerm term = next := by
  obtain ⟨v, rfl, bound⟩ := links
  exact applyTerm_bound bound

/-- A single step changes a term exactly if the term is not at rest. -/
theorem applyTerm_eq_self_iff : s.applyTerm term = term ↔ s.Rests term := by
  cases term with
  | const name => exact iff_of_true rfl nofun
  | var v =>
      simp only [Rests, Term.var.injEq, forall_eq']
      cases found : s.get? v with
      | none => simp [applyTerm_unbound found]
      | some next => simp [applyTerm_bound found]

/-- A term that is not at rest is a bound variable. -/
theorem links_applyTerm (moves : ¬ s.Rests term) :
    s.Links term (s.applyTerm term) := by
  cases term with
  | const name => exact absurd nofun moves
  | var v =>
      cases found : s.get? v with
      | none => exact absurd (applyTerm_eq_self_iff.mp (applyTerm_unbound found)) moves
      | some next => exact ⟨v, rfl, by rw [applyTerm_bound found, found]⟩

/-- Steps that change nothing need not be counted. -/
theorem follow_eq_iterate (steps : Nat) (term : Term) :
    s.follow steps term = s.applyTerm^[steps] term := by
  induction steps generalizing term with
  | zero => rfl
  | succ steps ih =>
      rw [Function.iterate_succ_apply, ← ih]
      by_cases rests : s.Rests term
      · rw [applyTerm_eq_self_iff.mpr rests, rests.follow, rests.follow]
      · obtain ⟨v, rfl, bound⟩ := links_applyTerm rests
        have moves : s.applyTerm (.var v) ≠ .var v :=
          mt applyTerm_eq_self_iff.mp rests
        rw [follow, bound]
        exact if_neg moves

theorem reaches_iterate (s : Substitution) (steps : Nat) (term : Term) :
    s.Reaches term (s.applyTerm^[steps] term) := by
  induction steps with
  | zero => exact .refl
  | succ steps ih =>
      rw [Function.iterate_succ_apply']
      by_cases rests : s.Rests (s.applyTerm^[steps] term)
      · rwa [applyTerm_eq_self_iff.mpr rests]
      · exact ih.tail (links_applyTerm rests)

/-- Wherever a walk stops, bindings lead there. -/
theorem reaches_walk (s : Substitution) (term : Term) :
    s.Reaches term (s.walk term) := by
  rw [walk, follow_eq_iterate]
  exact s.reaches_iterate _ term

/-! ## Chains that end -/

/-- Nothing but itself is reached from a term at rest. -/
theorem Rests.eq_of_reaches (rests : s.Rests term) (reaches : s.Reaches term last) :
    last = term := by
  induction reaches with
  | refl => rfl
  | tail _ link same =>
      rw [same] at link
      rw [← link.applyTerm, applyTerm_eq_self_iff.mpr rests]

/-- Bindings that lead to a term at rest are a chain. -/
theorem Reaches.leads (reaches : s.Reaches term last) (rests : s.Rests last) :
    ∃ passed, s.Leads passed term last := by
  induction reaches using Relation.ReflTransGen.head_induction_on with
  | refl => exact ⟨[], .stop rests⟩
  | @head term next link _ ih =>
      obtain ⟨v, rfl, bound⟩ := link
      obtain ⟨passed, leads⟩ := ih
      by_cases same : next = .var v
      · exact ⟨passed, same ▸ leads⟩
      · exact ⟨v :: passed, .step bound same leads⟩

theorem Reaches.walk (reaches : s.Reaches term last) (rests : s.Rests last) :
    s.walk term = last := by
  obtain ⟨passed, leads⟩ := reaches.leads rests
  exact leads.walk

/-! ## Chains that go round -/

def keys (s : Substitution) : Finset Term :=
  (s.bindings.map fun binding => Term.var binding.1).toFinset

theorem card_keys_le (s : Substitution) : s.keys.card ≤ s.size := by
  calc s.keys.card
      ≤ (s.bindings.map fun binding => Term.var binding.1).length :=
        List.toFinset_card_le _
    _ = s.size := List.length_map _

theorem Links.mem_keys (links : s.Links term next) : term ∈ s.keys := by
  obtain ⟨v, rfl, bound⟩ := links
  rw [keys, List.mem_toFinset]
  exact List.mem_map.mpr ⟨(v, next), get?_eq_some_iff.mp bound, rfl⟩

/-- Iteration that meets a point twice goes round from there on. -/
theorem iterate_mem_periodicPts {α : Type} {f : α → α} {x : α} {i j n : Nat}
    (before : i < j) (enough : j ≤ n) (again : f^[i] x = f^[j] x) :
    f^[n] x ∈ Function.periodicPts f := by
  have period : Function.IsPeriodicPt f (j - i) (f^[i] x) := by
    rw [Function.IsPeriodicPt, Function.IsFixedPt, ← Function.iterate_add_apply,
      Nat.sub_add_cancel before.le, ← again]
  have later := period.apply_iterate (n - i)
  rw [← Function.iterate_add_apply, Nat.sub_add_cancel (before.le.trans enough)]
    at later
  exact Function.mk_mem_periodicPts (Nat.sub_pos_of_lt before) later

/-- A walk that never comes to rest passes more terms than there are bound
variables, so it is going round when it stops. -/
theorem walk_mem_periodicPts
    (endless : ∀ last, s.Reaches term last → ¬ s.Rests last) :
    s.walk term ∈ Function.periodicPts s.applyTerm := by
  have bound : Set.MapsTo (fun steps => s.applyTerm^[steps] term)
      (Finset.range (s.size + 1)) s.keys := fun steps _ =>
    (links_applyTerm (endless _ (s.reaches_iterate steps term))).mem_keys
  have fewer : s.keys.card < (Finset.range (s.size + 1)).card := by
    rw [Finset.card_range]
    exact Nat.lt_succ_of_le s.card_keys_le
  obtain ⟨i, first, j, second, differ, again⟩ :=
    Finset.exists_ne_map_eq_of_card_lt_of_maps_to fewer bound
  have low := (Finset.mem_range.mp first).le
  have high := (Finset.mem_range.mp second).le
  rw [walk, follow_eq_iterate]
  rcases Nat.lt_or_gt_of_ne differ with before | before
  · exact iterate_mem_periodicPts before high again
  · exact iterate_mem_periodicPts before low again.symm

/-- A term that following comes back to, without ever resting, is on a cycle. -/
theorem exists_circular (returns : term ∈ Function.periodicPts s.applyTerm)
    (endless : ∀ last, s.Reaches term last → ¬ s.Rests last) :
    ∃ cycle, s.Circular cycle ∧ term ∈ cycle := by
  have moves (steps : Nat) : s.Links (s.applyTerm^[steps] term)
      (s.applyTerm^[steps + 1] term) := by
    rw [Function.iterate_succ_apply']
    exact links_applyTerm (endless _ (s.reaches_iterate steps term))
  have differ : term ≠ s.applyTerm term := fun same =>
    endless term .refl (applyTerm_eq_self_iff.mp same.symm)
  have here := Function.self_mem_periodicOrbit returns
  exact ⟨Function.periodicOrbit s.applyTerm term, {
    distinct := Function.nodup_periodicOrbit
    several := ⟨term, s.applyTerm term, differ, here,
      Function.iterate_mem_periodicOrbit returns 1⟩
    linked := (Function.periodicOrbit_chain _).mpr fun steps _ => moves steps }, here⟩

/-- What a binding takes further is a variable. -/
theorem Links.exists_var (links : s.Links term next) : ∃ v, term = .var v := by
  obtain ⟨v, same, _⟩ := links
  exact ⟨v, same⟩

/-- A walk along an endless chain stops at a variable on a cycle. -/
theorem walk_circular (endless : ∀ last, s.Reaches term last → ¬ s.Rests last) :
    ∃ v cycle, s.walk term = .var v ∧ s.Circular cycle ∧ .var v ∈ cycle := by
  have onwards : ∀ last, s.Reaches (s.walk term) last → ¬ s.Rests last :=
    fun last further => endless last ((s.reaches_walk term).trans further)
  obtain ⟨v, same⟩ := (links_applyTerm (onwards _ .refl)).exists_var
  obtain ⟨cycle, circular, member⟩ :=
    exists_circular (walk_mem_periodicPts endless) onwards
  exact ⟨v, cycle, same, circular, same ▸ member⟩

/-! ## Cycles -/

/-- A cycle can be told from any of its elements on. -/
theorem exists_cons_of_mem_cycle {α : Type} {cycle : Cycle α} {a : α}
    (member : a ∈ cycle) : ∃ others : List α, cycle = ↑(a :: others) := by
  obtain ⟨around, rfl⟩ := Quot.exists_rep cycle
  obtain ⟨before, behind, rfl⟩ := List.append_of_mem member
  exact ⟨behind ++ before, Cycle.coe_eq_coe.mpr List.isRotated_append⟩

namespace Circular

variable {cycle : Cycle Term} (circular : s.Circular cycle)
include circular

/-- From each term of a cycle a binding leads to another one. -/
theorem exists_next (member : term ∈ cycle) :
    ∃ next ∈ cycle, next ≠ term ∧ s.Links term next := by
  obtain ⟨others, rfl⟩ := exists_cons_of_mem_cycle member
  have long := Cycle.length_nontrivial circular.several
  have distinct := Cycle.nodup_coe_iff.mp circular.distinct
  have linked := (Cycle.chain_coe_cons _ _ _).mp circular.linked
  cases others with
  | nil => exact absurd long (by simp)
  | cons next others =>
      refine ⟨next, by simp, ?_, linked.rel⟩
      rintro rfl
      exact (List.nodup_cons.mp distinct).1 List.mem_cons_self

/-- Following bindings from a cycle stays on the cycle. -/
theorem mem_of_reaches (member : term ∈ cycle) (reaches : s.Reaches term last) :
    last ∈ cycle := by
  induction reaches with
  | refl => exact member
  | tail _ link ih =>
      obtain ⟨next, inside, _, link'⟩ := circular.exists_next ih
      rwa [← link.applyTerm, link'.applyTerm]

theorem not_rests (member : term ∈ cycle) : ¬ s.Rests term := by
  obtain ⟨next, _, differ, link⟩ := circular.exists_next member
  rw [← applyTerm_eq_self_iff, link.applyTerm]
  exact differ

end Circular

/-- Following bindings from the term leads onto a cycle. -/
def GoesRound (s : Substitution) (term : Term) : Prop :=
  ∃ cycle, s.Circular cycle ∧ ∃ passed ∈ cycle, s.Reaches term passed

/-- Bindings lead onto a cycle exactly if they do not lead to a term at rest. -/
theorem goesRound_iff :
    s.GoesRound term ↔ ∀ last, s.Reaches term last → ¬ s.Rests last := by
  constructor
  · rintro ⟨cycle, circular, passed, inside, there⟩ last here rests
    have unique : Relator.RightUnique s.Links := fun _ _ _ one other =>
      one.applyTerm.symm.trans other.applyTerm
    rcases Relation.ReflTransGen.total_of_right_unique unique there here with
      onwards | back
    · exact circular.not_rests (circular.mem_of_reaches inside onwards) rests
    · rw [rests.eq_of_reaches back] at inside
      exact circular.not_rests inside rests
  · intro endless
    obtain ⟨v, cycle, same, circular, member⟩ := walk_circular endless
    exact ⟨cycle, circular, _, member, same ▸ s.reaches_walk term⟩

theorem walk_walk (straight : ¬ s.GoesRound term) :
    s.walk (s.walk term) = s.walk term := by
  rw [goesRound_iff] at straight
  push Not at straight
  obtain ⟨last, reaches, rests⟩ := straight
  rw [reaches.walk rests, rests.walk]

end Substitution

namespace Example

/-- A chain through all of its bindings, the last one made first, and a cycle of
two variables that a third one leads to. -/
def knot : Substitution :=
  .ofList [(⟨"Z"⟩, .const "a"), (⟨"Y"⟩, .var ⟨"Z"⟩), (⟨"X"⟩, .var ⟨"Y"⟩),
    (⟨"P"⟩, .var ⟨"Q"⟩), (⟨"Q"⟩, .var ⟨"P"⟩), (⟨"O"⟩, .var ⟨"P"⟩)]

end Example

namespace Substitution

open Example (knot)

/--
A walk stops where bindings lead from its term.  If they lead to a constant, an
unbound variable or one that is bound to itself, it stops there; if they do not, it
stops at a variable on a cycle of two bindings or more.  So walking on from where a
walk stopped changes nothing unless bindings lead onto such a cycle.  All of this
holds of every list of bindings with distinct variables, in whatever order they
were made.
-/
theorem walk_reaches_end (s : Substitution) (term : Term) :
    s.Reaches term (s.walk term) ∧
    (∀ last, s.Reaches term last → s.Rests last → s.walk term = last) ∧
    ((∀ last, s.Reaches term last → ¬ s.Rests last) →
      ∃ v cycle, s.walk term = .var v ∧ s.Circular cycle ∧ .var v ∈ cycle) ∧
    (¬ s.GoesRound term → s.walk (s.walk term) = s.walk term) :=
  ⟨s.reaches_walk term, fun _ => Reaches.walk, walk_circular, walk_walk⟩

/-- One walk follows every binding of a chain to its end; another one stops on a
cycle, and walking on from there goes on round it. -/
theorem walk_reaches_end_knot :
    (knot.Reaches (.var ⟨"X"⟩) (.const "a") ∧ knot.Rests (.const "a") ∧
      knot.walk (.var ⟨"X"⟩) = .const "a") ∧
    ((∀ last, knot.Reaches (.var ⟨"O"⟩) last → ¬ knot.Rests last) ∧
      ∃ v cycle, knot.walk (.var ⟨"O"⟩) = .var v ∧ knot.Circular cycle ∧
        .var v ∈ cycle) ∧
    (¬ knot.GoesRound (.var ⟨"X"⟩) ∧
      knot.walk (knot.walk (.var ⟨"X"⟩)) = knot.walk (.var ⟨"X"⟩)) ∧
    knot.walk (knot.walk (.var ⟨"O"⟩)) ≠ knot.walk (.var ⟨"O"⟩) := by
  have down : knot.Reaches (.var ⟨"X"⟩) (.const "a") :=
    knot.reaches_iterate 3 (.var ⟨"X"⟩)
  have rests : knot.Rests (.const "a") := nofun
  have straight : ¬ knot.GoesRound (.var ⟨"X"⟩) := fun round =>
    goesRound_iff.mp round _ down rests
  have round : knot.GoesRound (.var ⟨"O"⟩) := by
    refine ⟨↑[Term.var ⟨"P"⟩, .var ⟨"Q"⟩], ⟨by decide, ⟨.var ⟨"P"⟩, .var ⟨"Q"⟩, ?_⟩, ?_⟩,
      .var ⟨"P"⟩, by decide, knot.reaches_iterate 1 (.var ⟨"O"⟩)⟩
    · decide
    rw [Cycle.chain_coe_cons]
    exact .cons_cons ⟨_, rfl, by decide⟩ (.cons_cons ⟨_, rfl, by decide⟩ (.singleton _))
  obtain ⟨_, ends, _, again⟩ := walk_reaches_end knot (.var ⟨"X"⟩)
  obtain ⟨_, _, circles, _⟩ := walk_reaches_end knot (.var ⟨"O"⟩)
  have endless := goesRound_iff.mp round
  exact ⟨⟨down, rests, ends _ down rests⟩, ⟨endless, circles endless⟩,
    ⟨straight, again straight⟩, by decide⟩

end Substitution

end HornLogic
