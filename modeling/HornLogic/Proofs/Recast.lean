import HornLogic.Proofs.Plain
import HornLogic.Proofs.Relabel
import Mathlib.Data.Set.Function

/-!
# Other names for the variables of clauses

A clause may be written with other names for its variables.  When it is used,
its variables are renamed into a generation, so that on a branch each
generation has a naming of its own; the plain variables, those of the query,
belong to the naming of generation zero.
-/

namespace HornLogic

namespace Variable

/-- A permutation of the plain variables that keeps all other variables. -/
structure Naming where
  toPerm : Equiv.Perm Variable
  fixed : ∀ v : Variable, ¬ v.Plain → toPerm v = v

namespace Naming

def refl : Naming :=
  ⟨Equiv.refl Variable, fun _ _ => rfl⟩

theorem plain (naming : Naming) {v : Variable} (plain : v.Plain) :
    (naming.toPerm v).Plain := by
  by_contra marked
  have stays := naming.toPerm.injective (naming.fixed _ marked)
  exact marked (stays.symm ▸ plain)

def exchange (naming : Naming) {v w : Variable} (left : v.Plain)
    (right : w.Plain) : Naming where
  toPerm := naming.toPerm.trans (Equiv.swap v w)
  fixed u marked := by
    rw [Equiv.trans_apply, naming.fixed u marked]
    exact Equiv.swap_apply_of_ne_of_ne (fun same => marked (same ▸ left))
      (fun same => marked (same ▸ right))

/-- New names for some plain variables, if no two become the same, belong to
a naming. -/
theorem exists_extending {names : Variable → Variable} (vars : List Variable)
    (plain : ∀ v ∈ vars, v.Plain) (plain' : ∀ v ∈ vars, (names v).Plain)
    (injective : Set.InjOn names {v | v ∈ vars}) :
    ∃ naming : Naming, ∀ v ∈ vars, naming.toPerm v = names v := by
  induction vars with
  | nil => exact ⟨refl, List.forall_mem_nil _⟩
  | cons v rest ih =>
      obtain ⟨naming, extends_⟩ := ih
        (fun w member => plain w (List.mem_cons_of_mem _ member))
        (fun w member => plain' w (List.mem_cons_of_mem _ member))
        (fun w member u member' => injective (List.mem_cons_of_mem _ member)
          (List.mem_cons_of_mem _ member'))
      have here := List.mem_cons_self (a := v) (l := rest)
      refine ⟨naming.exchange (naming.plain (plain v here)) (plain' v here), ?_⟩
      intro w member
      change Equiv.swap (naming.toPerm v) (names v) (naming.toPerm w) = names w
      by_cases same : w = v
      · rw [same, Equiv.swap_apply_left]
      · have inside := (List.mem_cons.mp member).resolve_left same
        have apart : naming.toPerm w ≠ naming.toPerm v := fun eq =>
          same (naming.toPerm.injective eq)
        have differs : names w ≠ names v := fun eq =>
          same (injective member here eq)
        rw [extends_ w inside] at apart ⊢
        exact Equiv.swap_apply_of_ne_of_ne apart differs

end Naming

theorem plain_base (v : Variable) : (mk v.base).Plain :=
  v.hash_notMem_base

/-- Give other names to all variables, to those of each generation by a naming
of its own. -/
def recast (namings : Nat → Naming) : Variable ↪ Variable where
  toFun v :=
    match v.generation? with
    | none => (namings 0).toPerm v
    | some generation =>
        ((namings generation).toPerm ⟨v.base⟩).renamed generation
  inj' := by
    -- A new name for a variable without generation has none either.
    have unrenamed : ∀ v w : Variable, v.generation? = none →
        ∀ generation, (namings 0).toPerm v ≠ w.renamed generation := by
      intro v w ungenerated generation same
      by_cases plain : v.Plain
      · have image := ((namings 0).plain plain).generation?_eq
        rw [same, generation?_renamed] at image
        cases image
      · rw [(namings 0).fixed v plain] at same
        rw [same, generation?_renamed] at ungenerated
        cases ungenerated
    intro v w same
    dsimp only at same
    cases hv : v.generation? with
    | none =>
        cases hw : w.generation? with
        | none =>
            simp only [hv, hw] at same
            exact (namings 0).toPerm.injective same
        | some generation =>
            simp only [hv, hw] at same
            exact absurd same (unrenamed v _ hv generation)
    | some generation =>
        cases hw : w.generation? with
        | none =>
            simp only [hv, hw] at same
            exact absurd same.symm (unrenamed w _ hw generation)
        | some other =>
            simp only [hv, hw] at same
            obtain ⟨bases, rfl⟩ := renamed_eq_iff.mp same
            rw [((namings generation).plain v.plain_base).base_eq,
              ((namings generation).plain w.plain_base).base_eq] at bases
            have images : (namings generation).toPerm ⟨v.base⟩ =
                (namings generation).toPerm ⟨w.base⟩ := by
              cases hleft : (namings generation).toPerm ⟨v.base⟩
              cases hright : (namings generation).toPerm ⟨w.base⟩
              rw [hleft, hright] at bases
              exact congrArg mk bases
            have origins := (namings generation).toPerm.injective images
            rw [generation?_eq_some_iff] at hv hw
            rw [← hv, ← hw]
            exact renamed_eq_iff.mpr ⟨congrArg name origins, rfl⟩

theorem recast_apply (namings : Nat → Naming) (v : Variable) :
    recast namings v =
      match v.generation? with
      | none => (namings 0).toPerm v
      | some generation =>
          ((namings generation).toPerm ⟨v.base⟩).renamed generation :=
  rfl

/-- Plain variables get the names of generation zero. -/
theorem Plain.recast_eq {v : Variable} (plain : v.Plain)
    (namings : Nat → Naming) : recast namings v = (namings 0).toPerm v := by
  rw [recast_apply, plain.generation?_eq]

/-- A renamed plain variable gets its new name in its generation. -/
theorem Plain.recast_renamed {v : Variable} (plain : v.Plain)
    (namings : Nat → Naming) (generation : Nat) :
    recast namings (v.renamed generation) =
      ((namings generation).toPerm v).renamed generation := by
  have base : mk (v.renamed generation).base = v := by
    rw [base_renamed, plain.base_eq]
  rw [recast_apply, generation?_renamed]
  dsimp only
  rw [base]

/-- Only the namings up to the age of a variable matter. -/
theorem recast_congr {namings others : Nat → Naming} {v : Variable}
    (agree : ∀ generation, generation ≤ v.age →
      others generation = namings generation) :
    recast others v = recast namings v := by
  rw [recast_apply, recast_apply]
  cases found : v.generation? with
  | none =>
      dsimp only
      rw [agree 0 (Nat.zero_le _)]
  | some generation =>
      have aged : v.age = generation := by simp [age, found]
      dsimp only
      rw [agree generation (Nat.le_of_eq aged.symm)]

end Variable

open Variable (Naming recast)

namespace Predicate

/-- Renaming into a generation and giving other names may be exchanged. -/
theorem Plain.relabel_recast_renamed {p : Predicate} (plain : p.Plain)
    (namings : Nat → Naming) (generation : Nat) :
    (p.renamed generation).relabel (recast namings) =
      (p.relabel (namings generation).toPerm).renamed generation := by
  simp only [relabel, renamed, List.map_map]
  apply map_args_congr
  intro arg member
  cases arg with
  | const name => rfl
  | var v =>
      exact congrArg Term.var
        ((plain.var member).recast_renamed namings generation)

/-- Only the namings of the generations that occur matter. -/
theorem Within.relabel_recast_congr {p : Predicate} {drawn : Nat}
    (within : p.Within drawn) {namings others : Nat → Naming}
    (agree : ∀ generation, generation ≤ drawn →
      others generation = namings generation) :
    p.relabel (recast others) = p.relabel (recast namings) :=
  relabel_congr fun v member => Variable.recast_congr fun generation old =>
    agree generation (Nat.le_trans old (within v member))

end Predicate

theorem Substitution.Within.relabel_recast_congr {s : Substitution}
    {drawn : Nat} (within : s.Within drawn) {namings others : Nat → Naming}
    (agree : ∀ generation, generation ≤ drawn →
      others generation = namings generation) :
    s.relabel (recast others) = s.relabel (recast namings) := by
  apply relabel_congr
  intro v term found
  obtain ⟨bound, value⟩ := within v term found
  refine ⟨Variable.recast_congr fun generation old =>
    agree generation (Nat.le_trans old bound), ?_⟩
  rintro w rfl
  exact Variable.recast_congr fun generation old =>
    agree generation (Nat.le_trans old value)

/-! ## Variants of clauses -/

theorem Predicate.mem_vars {p : Predicate} {v : Variable} :
    v ∈ p.vars ↔ .var v ∈ p.args := by
  rw [vars]
  induction p.args with
  | nil => simp [varsOf]
  | cons arg rest ih =>
      cases arg with
      | const name => simpa [varsOf] using ih
      | var w =>
          by_cases same : v = w
          · simp [varsOf, same]
          · simpa [varsOf, same] using ih

/-- New names for the variables of a plain predicate, if no two become the
same, are names of generation zero. -/
theorem Predicate.Plain.exists_recast {p : Predicate} (plain : p.Plain)
    {names : Variable → Variable} (plain' : (p.relabel names).Plain)
    (injective : Set.InjOn names {v | v ∈ p.vars}) :
    ∃ namings : Nat → Naming, ∀ v, .var v ∈ p.args →
      recast namings v = names v := by
  obtain ⟨naming, agrees⟩ := Naming.exists_extending p.vars
    (fun v occurs => plain.var (mem_vars.mp occurs))
    (fun v occurs => plain'.var
      (List.mem_map.mpr ⟨_, mem_vars.mp occurs, rfl⟩))
    injective
  refine ⟨fun _ => naming, fun v member => ?_⟩
  rw [(plain.var member).recast_eq, agrees v (mem_vars.mpr member)]

namespace Clause

def relabel (names : Variable → Variable) : Clause → Clause
  | .fact p => .fact (p.relabel names)
  | .rule r => .rule ⟨r.head.relabel names, r.body.map (·.relabel names)⟩

def vars (clause : Clause) : List Variable :=
  (clause.head :: clause.body).flatMap Predicate.vars

/-- The second clause is the first under other names for its variables, no two
of which become the same. -/
def Variant (clause other : Clause) : Prop :=
  ∃ names : Variable → Variable,
    Set.InjOn names {v | v ∈ clause.vars} ∧ other = clause.relabel names

/-- The second clause is the first, a plain one, under a naming. -/
def Recast (clause other : Clause) : Prop :=
  clause.Plain ∧ ∃ naming : Naming, other = clause.relabel naming.toPerm

variable {clause other : Clause}

@[simp]
theorem head_relabel (names : Variable → Variable) (clause : Clause) :
    (clause.relabel names).head = clause.head.relabel names := by
  cases clause <;> rfl

@[simp]
theorem body_relabel (names : Variable → Variable) (clause : Clause) :
    (clause.relabel names).body = clause.body.map (·.relabel names) := by
  cases clause <;> rfl

@[simp]
theorem name_relabel (names : Variable → Variable) (clause : Clause) :
    (clause.relabel names).name = clause.name := by
  cases clause <;> rfl

/-- Names that do the same to head and body do the same to the clause. -/
theorem relabel_congr {names others : Variable → Variable}
    (same : ∀ p ∈ clause.head :: clause.body,
      p.relabel names = p.relabel others) :
    clause.relabel names = clause.relabel others := by
  cases clause with
  | fact p => exact congrArg Clause.fact (same p List.mem_cons_self)
  | rule r =>
      have bodies : r.body.map (·.relabel names) =
          r.body.map (·.relabel others) :=
        List.map_congr_left fun p member => same p (List.mem_cons_of_mem _ member)
      rw [relabel, relabel, bodies, same r.head List.mem_cons_self]

/-- The names of a plain variant belong to a naming. -/
theorem Variant.recast (variant : clause.Variant other)
    (plain : clause.Plain) (plain' : other.Plain) : clause.Recast other := by
  obtain ⟨names, injective, rfl⟩ := variant
  have image : ∀ p ∈ clause.head :: clause.body, (p.relabel names).Plain := by
    intro p member
    apply plain'
    rw [head_relabel, body_relabel]
    rcases List.mem_cons.mp member with rfl | inside
    · exact List.mem_cons_self
    · exact List.mem_cons_of_mem _ (List.mem_map_of_mem inside)
  obtain ⟨naming, agrees⟩ := Naming.exists_extending clause.vars
    (fun v member => by
      obtain ⟨p, inside, occurs⟩ := List.mem_flatMap.mp member
      exact (plain p inside).var (Predicate.mem_vars.mp occurs))
    (fun v member => by
      obtain ⟨p, inside, occurs⟩ := List.mem_flatMap.mp member
      exact (image p inside).var
        (List.mem_map.mpr ⟨_, Predicate.mem_vars.mp occurs, rfl⟩))
    injective
  refine ⟨plain, naming, relabel_congr fun p inside => ?_⟩
  exact Predicate.relabel_congr fun v occurs => (agrees v
    (List.mem_flatMap.mpr ⟨p, inside, Predicate.mem_vars.mpr occurs⟩)).symm

/-- Plain variants of plain clauses are recast, each under a naming of its
own. -/
theorem forall₂_recast {clauses others : List Clause}
    (variants : List.Forall₂ Variant clauses others)
    (plain : ∀ clause ∈ clauses, clause.Plain)
    (plain' : ∀ other ∈ others, other.Plain) :
    List.Forall₂ Recast clauses others := by
  induction variants with
  | nil => exact .nil
  | cons variant _ ih =>
      rw [List.forall_mem_cons] at plain plain'
      exact .cons (variant.recast plain.1 plain'.1) (ih plain.2 plain'.2)

end Clause

end HornLogic
