import HornLogic.Term
import Mathlib.Data.List.TakeWhile

/-!
# Generations of variables

A plain variable has no `#` in its name.  Renaming a variable into a
generation keeps the base name and writes the generation behind a `#`, so a
renamed variable tells both, and no renamed variable is plain.  The age of a
variable is its generation; a plain variable has age zero.
-/

namespace HornLogic

namespace Variable

/-- A variable whose name does not contain the mark of a generation. -/
def Plain (v : Variable) : Prop :=
  '#' ∉ v.name.toList

instance (v : Variable) : Decidable v.Plain :=
  inferInstanceAs (Decidable ('#' ∉ v.name.toList))

@[simp]
theorem toList_base (v : Variable) :
    v.base.toList = v.name.toList.takeWhile (· ≠ '#') := by
  simp [base]

/-- A base name has no mark. -/
theorem hash_notMem_base (v : Variable) : '#' ∉ v.base.toList := by
  intro marked
  rw [toList_base] at marked
  simpa using List.mem_takeWhile_imp marked

theorem Plain.base_eq {v : Variable} (plain : v.Plain) : v.base = v.name := by
  have whole : v.name.toList.takeWhile (· ≠ '#') = v.name.toList := by
    rw [List.takeWhile_eq_self_iff]
    intro c hc
    have unmarked : c ≠ '#' := fun same => plain (same ▸ hc)
    simpa using unmarked
  rw [base, whole, String.ofList_toList]

theorem toList_renamed (v : Variable) (generation : Nat) :
    (v.renamed generation).name.toList =
      v.base.toList ++ '#' :: Nat.toDigits 10 generation := by
  simp [renamed, Nat.toString_eq_repr, Nat.toList_repr]

/-- Characters up to the first mark, where one stands behind unmarked text. -/
private theorem takeWhile_unmarked {text : List Char} (unmarked : '#' ∉ text)
    (rest : List Char) :
    (text ++ '#' :: rest).takeWhile (· ≠ '#') = text := by
  rw [List.takeWhile_append_of_pos]
  · simp
  · intro c hc
    have differs : c ≠ '#' := fun same => unmarked (same ▸ hc)
    simpa using differs

/-- Characters from the first mark on. -/
private theorem dropWhile_unmarked {text : List Char} (unmarked : '#' ∉ text)
    (rest : List Char) :
    (text ++ '#' :: rest).dropWhile (· ≠ '#') = '#' :: rest := by
  rw [List.dropWhile_append_of_pos]
  · simp
  · intro c hc
    have differs : c ≠ '#' := fun same => unmarked (same ▸ hc)
    simpa using differs

/-- Renaming keeps the base name. -/
@[simp]
theorem base_renamed (v : Variable) (generation : Nat) :
    (v.renamed generation).base = v.base := by
  apply String.toList_injective
  rw [toList_base, toList_renamed, takeWhile_unmarked v.hash_notMem_base]

/-- A later renaming replaces an earlier one. -/
@[simp]
theorem renamed_renamed (v : Variable) (first second : Nat) :
    (v.renamed first).renamed second = v.renamed second := by
  rw [renamed, base_renamed]
  rfl

def stamp (v : Variable) : Nat :=
  Nat.ofDigitChars 10 ((v.name.toList.dropWhile (· ≠ '#')).drop 1) 0

@[simp]
theorem stamp_renamed (v : Variable) (generation : Nat) :
    (v.renamed generation).stamp = generation := by
  rw [stamp, toList_renamed, dropWhile_unmarked v.hash_notMem_base]
  exact Nat.ofDigitChars_ten_toDigits

/-- Renamed variables agree in base name and generation or differ. -/
theorem renamed_eq_iff {v w : Variable} {first second : Nat} :
    v.renamed first = w.renamed second ↔ v.base = w.base ∧ first = second := by
  constructor
  · intro same
    have bases := congrArg base same
    have stamps := congrArg stamp same
    exact ⟨by simpa using bases, by simpa using stamps⟩
  · rintro ⟨bases, rfl⟩
    rw [renamed, renamed, bases]

/-- Renaming into one generation does not identify plain variables. -/
theorem Plain.renamed_injective {v w : Variable} {generation : Nat}
    (left : v.Plain) (right : w.Plain)
    (same : v.renamed generation = w.renamed generation) : v = w := by
  have bases := (renamed_eq_iff.mp same).1
  rw [left.base_eq, right.base_eq] at bases
  cases v
  cases w
  exact congrArg mk bases

/-- The generation a variable was renamed into, if it was. -/
def generation? (v : Variable) : Option Nat :=
  if v.renamed v.stamp = v then some v.stamp else none

/-- A variable has a generation when renaming into it changes nothing. -/
theorem generation?_eq_some_iff {v : Variable} {generation : Nat} :
    v.generation? = some generation ↔ v.renamed generation = v := by
  rw [generation?]
  constructor
  · intro found
    split at found
    · rename_i fixed
      cases found
      exact fixed
    · cases found
  · intro fixed
    have stamped : v.stamp = generation := by
      rw [← fixed, stamp_renamed]
    rw [stamped, if_pos fixed]

@[simp]
theorem generation?_renamed (v : Variable) (generation : Nat) :
    (v.renamed generation).generation? = some generation := by
  rw [generation?_eq_some_iff, renamed_renamed]

theorem Plain.generation?_eq {v : Variable} (plain : v.Plain) :
    v.generation? = none := by
  cases found : v.generation? with
  | none => rfl
  | some generation =>
      rw [generation?_eq_some_iff] at found
      have marked : '#' ∈ v.name.toList := by
        rw [← found, toList_renamed]
        simp
      exact absurd marked plain

/-- The generation of a variable, or zero if it was never renamed. -/
def age (v : Variable) : Nat :=
  v.generation?.getD 0

@[simp]
theorem age_renamed (v : Variable) (generation : Nat) :
    (v.renamed generation).age = generation := by
  simp [age]

theorem Plain.age_eq {v : Variable} (plain : v.Plain) : v.age = 0 := by
  simp [Variable.age, plain.generation?_eq]

end Variable

end HornLogic
