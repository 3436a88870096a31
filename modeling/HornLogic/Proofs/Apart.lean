import HornLogic.Proofs.Recast

/-!
# Rules renamed apart

A rule that is renamed into a generation is a copy of the rule: every constant stays in
its place, and two places hold the same variable exactly if they did before.  Copies of
different generations have no variable in common, whatever rules they are copies of, and
none has a variable of a plain rule.  Renaming a copy again makes the copy that renaming
the rule makes, so that a rule may be renamed as often as one likes.
-/

namespace HornLogic

theorem Variable.not_plain_renamed (v : Variable) (generation : Nat) :
    ¬ (v.renamed generation).Plain := by
  intro plain
  have none := plain.generation?_eq
  rw [generation?_renamed] at none
  cases none

/-! ## Terms and predicates -/

theorem Term.renamed_renamed (term : Term) (first second : Nat) :
    (term.renamed first).renamed second = term.renamed second := by
  cases term with
  | const name => rfl
  | var v => exact congrArg var (v.renamed_renamed first second)

theorem Term.renamed_eq_const_iff {term : Term} {generation : Nat} {name : String} :
    term.renamed generation = .const name ↔ term = .const name := by
  cases term with
  | const other => rfl
  | var v => exact iff_of_false nofun nofun

theorem Term.renamed_eq_var_iff {term : Term} {generation : Nat} {v : Variable} :
    term.renamed generation = .var v ↔ ∃ w, term = .var w ∧ w.renamed generation = v := by
  cases term with
  | const name => exact iff_of_false nofun nofun
  | var w => simp [renamed]

namespace Predicate

theorem renamed_renamed (p : Predicate) (first second : Nat) :
    (p.renamed first).renamed second = p.renamed second := by
  have each : Term.renamed second ∘ Term.renamed first = Term.renamed second :=
    funext fun arg => arg.renamed_renamed first second
  rw [renamed, renamed, renamed, List.map_map, each]

/-- Renaming into a generation gives every variable the name that it has there. -/
theorem renamed_eq_relabel (p : Predicate) (generation : Nat) :
    p.renamed generation = p.relabel (·.renamed generation) := by
  refine map_args_congr fun arg _ => ?_
  cases arg <;> rfl

end Predicate

/-! ## Rules -/

namespace Rule

theorem renamed_renamed (r : Rule) (first second : Nat) :
    (r.renamed first).renamed second = r.renamed second := by
  have each : (Predicate.renamed · second) ∘ (Predicate.renamed · first) =
      (Predicate.renamed · second) :=
    funext fun p => p.renamed_renamed first second
  rw [renamed, renamed, renamed, List.map_map, each, Predicate.renamed_renamed]

theorem renamed_eq_relabel (r : Rule) (generation : Nat) :
    Clause.rule (r.renamed generation) =
      (Clause.rule r).relabel (·.renamed generation) := by
  rw [renamed, Clause.relabel, Predicate.renamed_eq_relabel]
  simp only [Predicate.renamed_eq_relabel]

/-- A place in a rule: the number of the predicate, counted from the head, and the number
of the argument. -/
structure Place where
  predicate : Nat
  argument : Nat

def term? (r : Rule) (place : Place) : Option Term :=
  (r.head :: r.body)[place.predicate]?.bind fun p => p.args[place.argument]?

/-- The same variable stands at two places. -/
def Shares (r : Rule) (here there : Place) : Prop :=
  ∃ v, r.term? here = some (.var v) ∧ r.term? there = some (.var v)

variable {r : Rule} {generation : Nat}

theorem term?_renamed (r : Rule) (generation : Nat) (place : Place) :
    (r.renamed generation).term? place = (r.term? place).map (Term.renamed generation) := by
  have predicates : (r.renamed generation).head :: (r.renamed generation).body =
      (r.head :: r.body).map (·.renamed generation) := rfl
  rw [term?, term?, predicates, List.getElem?_map]
  cases (r.head :: r.body)[place.predicate]? with
  | none => rfl
  | some p => exact List.getElem?_map

theorem term?_renamed_eq_const_iff {place : Place} {name : String} :
    (r.renamed generation).term? place = some (.const name) ↔
      r.term? place = some (.const name) := by
  rw [term?_renamed, Option.map_eq_some_iff]
  simp only [Term.renamed_eq_const_iff, exists_eq_right]

theorem term?_renamed_eq_var_iff {place : Place} {v : Variable} :
    (r.renamed generation).term? place = some (.var v) ↔
      ∃ w, r.term? place = some (.var w) ∧ w.renamed generation = v := by
  rw [term?_renamed, Option.map_eq_some_iff]
  constructor
  · rintro ⟨term, found, same⟩
    obtain ⟨w, rfl, named⟩ := Term.renamed_eq_var_iff.mp same
    exact ⟨w, found, named⟩
  · rintro ⟨w, found, rfl⟩
    exact ⟨_, found, rfl⟩

/-- The variable at a place of a plain rule is plain. -/
theorem plain_of_term? (plain : (Clause.rule r).Plain) {place : Place} {v : Variable}
    (found : r.term? place = some (.var v)) : v.Plain := by
  obtain ⟨p, isPart, isArg⟩ := Option.bind_eq_some_iff.mp found
  exact (plain p (List.mem_of_getElem? isPart)).var (List.mem_of_getElem? isArg)

/-- No two variables of a plain rule are renamed to the same one. -/
theorem shares_renamed_iff (plain : (Clause.rule r).Plain) {here there : Place} :
    (r.renamed generation).Shares here there ↔ r.Shares here there := by
  constructor
  · rintro ⟨v, first, second⟩
    obtain ⟨w, isHere, rfl⟩ := term?_renamed_eq_var_iff.mp first
    obtain ⟨other, isThere, same⟩ := term?_renamed_eq_var_iff.mp second
    obtain rfl := Variable.Plain.renamed_injective (plain_of_term? plain isThere)
      (plain_of_term? plain isHere) same
    exact ⟨other, isHere, isThere⟩
  · rintro ⟨v, isHere, isThere⟩
    exact ⟨_, term?_renamed_eq_var_iff.mpr ⟨v, isHere, rfl⟩,
      term?_renamed_eq_var_iff.mpr ⟨v, isThere, rfl⟩⟩

end Rule

theorem Clause.Plain.of_mem_vars {clause : Clause} (plain : clause.Plain) {v : Variable}
    (occurs : v ∈ clause.vars) : v.Plain := by
  obtain ⟨p, isPart, isVar⟩ := List.mem_flatMap.mp occurs
  exact (plain p isPart).var (Predicate.mem_vars.mp isVar)

theorem Rule.age_of_mem_vars_renamed {r : Rule} {generation : Nat} {v : Variable}
    (occurs : v ∈ (Clause.rule (r.renamed generation)).vars) : v.age = generation := by
  obtain ⟨p, isPart, isVar⟩ := List.mem_flatMap.mp occurs
  have isCopy : p ∈ (r.head :: r.body).map (·.renamed generation) := isPart
  obtain ⟨written, _, rfl⟩ := List.mem_map.mp isCopy
  exact written.ofAge_renamed generation v (Predicate.mem_vars.mp isVar)

namespace Example

/-- A path is an edge and a path behind it. -/
def step : Rule :=
  ⟨⟨"path", [.var ⟨"X"⟩, .var ⟨"Z"⟩]⟩,
    [⟨"edge", [.var ⟨"X"⟩, .var ⟨"Y"⟩]⟩, ⟨"path", [.var ⟨"Y"⟩, .var ⟨"Z"⟩]⟩]⟩

end Example

namespace Rule

open Example (step)

/--
Renamed variables are equal exactly if their base names and their generations are, no
plain variable is among them, and the base name is kept.  So renaming a plain rule gives
its variables other names, no two of them the same: constants stay, and two places share
a variable exactly if they did.  Rules of different generations share no variable, and of
two renamings the second one counts.
-/
theorem renamed_apart :
    (∀ (v w : Variable) (first second : Nat),
      v.renamed first = w.renamed second ↔ v.base = w.base ∧ first = second) ∧
    (∀ (v w : Variable) (generation : Nat), w.Plain → v.renamed generation ≠ w) ∧
    (∀ (v : Variable) (generation : Nat), (v.renamed generation).base = v.base) ∧
    (∀ (r : Rule) (generation : Nat), (Clause.rule r).Plain →
      Clause.rule (r.renamed generation) =
        (Clause.rule r).relabel (·.renamed generation) ∧
      Set.InjOn (·.renamed generation) {v | v ∈ (Clause.rule r).vars} ∧
      (∀ place name, (r.renamed generation).term? place = some (.const name) ↔
        r.term? place = some (.const name)) ∧
      ∀ here there, (r.renamed generation).Shares here there ↔ r.Shares here there) ∧
    (∀ (r s : Rule) (first second : Nat), first ≠ second →
      (Clause.rule (r.renamed first)).vars.Disjoint
        (Clause.rule (s.renamed second)).vars) ∧
    (∀ (p : Predicate) (first second : Nat),
      (p.renamed first).renamed second = p.renamed second) ∧
    ∀ (r : Rule) (first second : Nat),
      (r.renamed first).renamed second = r.renamed second := by
  refine ⟨fun v w first second => Variable.renamed_eq_iff, ?_, Variable.base_renamed,
    fun r generation plain => ⟨r.renamed_eq_relabel generation, ?_,
      fun place name => term?_renamed_eq_const_iff,
      fun here there => shares_renamed_iff plain⟩,
    ?_, Predicate.renamed_renamed, renamed_renamed⟩
  · rintro v w generation plain rfl
    exact v.not_plain_renamed generation plain
  · intro v occurs w occurs' same
    exact (plain.of_mem_vars occurs).renamed_injective (plain.of_mem_vars occurs') same
  · intro r s first second different v left right
    -- the variable would have two ages
    have aged : v.age = first := age_of_mem_vars_renamed left
    have aged' : v.age = second := age_of_mem_vars_renamed right
    exact different (aged.symm.trans aged')

/-- The variable that the head shares with the last goal of a copy is not the one that it
shares with the first, and no other copy has it. -/
theorem renamed_apart_step :
    (Clause.rule step).Plain ∧ (3 : Nat) ≠ 12 ∧
    (step.renamed 3).Shares ⟨0, 1⟩ ⟨2, 1⟩ ∧
    ¬ (step.renamed 3).Shares ⟨0, 1⟩ ⟨1, 0⟩ ∧
    (Clause.rule (step.renamed 3)).vars.Disjoint (Clause.rule (step.renamed 12)).vars ∧
    (step.renamed 3).renamed 12 = step.renamed 12 := by
  have plain : (Clause.rule step).Plain := by decide
  obtain ⟨_, _, _, copies, disjoint, _, again⟩ := renamed_apart
  obtain ⟨_, _, _, shares⟩ := copies step 3 plain
  refine ⟨plain, by decide, (shares _ _).mpr ⟨⟨"Z"⟩, rfl, rfl⟩, ?_,
    disjoint step step 3 12 (by decide), again step 3 12⟩
  rw [shares]
  rintro ⟨v, isHere, isThere⟩
  have same : step.term? ⟨0, 1⟩ = step.term? ⟨1, 0⟩ := isHere.trans isThere.symm
  exact absurd same (by decide)

end Rule

end HornLogic
