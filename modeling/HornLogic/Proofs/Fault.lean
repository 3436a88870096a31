import HornLogic.Fault

/-!
# Fields of faults

What stands in the fields of a fault after some have been added, and so what is
reported of a rejected statement: its line, its text and its position, as far as the
rejection has them, and nothing else.
-/

namespace HornLogic

namespace Details

theorem lookup_cons_eq_ite (key value : String) (rest : List (String × String))
    (other : String) : ((key, value) :: rest).lookup other =
      if other = key then some value else rest.lookup other := by
  by_cases same : other = key
  · rw [if_pos same, same, List.lookup_cons_self]
  · rw [if_neg same, List.lookup_cons, beq_false_of_ne same]

theorem lookup_put (key value : String) (entries : List (String × String))
    (other : String) : (put key value entries).lookup other =
      if other = key then some value else entries.lookup other := by
  induction entries with
  | nil => exact lookup_cons_eq_ite key value [] other
  | cons head rest ih =>
      obtain ⟨k, v⟩ := head
      rw [put]
      split
      · exact lookup_cons_eq_ite key value _ other
      · split
        · rename_i replaced
          rw [lookup_cons_eq_ite, lookup_cons_eq_ite, ← replaced]
          split <;> rfl
        · rename_i different
          rw [lookup_cons_eq_ite, lookup_cons_eq_ite, ih]
          by_cases same : other = key
          · rw [if_pos same, if_neg (same ▸ different), if_pos same]
          · rw [if_neg same, if_neg same]

/-- The entry that was made last counts, and no other one is touched. -/
theorem get?_insert (d : Details) (key value other : String) :
    (d.insert key value).get? other =
      if other = key then some value else d.get? other :=
  lookup_put key value d.entries other

end Details

namespace Fault

open Statement (Rejection)

theorem get?_withField? (fault : Fault) (key : String) (value : Option String)
    (other : String) : (fault.withField? key value).fields.get? other =
      if other = key then value.or (fault.fields.get? other)
      else fault.fields.get? other := by
  cases value with
  | none => simp [withField?]
  | some value =>
      rw [Option.some_or]
      exact Details.get?_insert fault.fields key value other

variable (fault : Fault) (key : String) (value : Option String)

@[simp] theorem code_withField? : (fault.withField? key value).code = fault.code := by
  cases value <;> rfl

@[simp]
theorem message_withField? : (fault.withField? key value).message = fault.message := by
  cases value <;> rfl

variable (rejection : Rejection)

@[simp] theorem code_ofRejection : (ofRejection rejection).code = codeOf rejection := by
  simp [ofRejection, withHint]

@[simp] theorem message_ofRejection :
    (ofRejection rejection).message = rejection.message := by
  simp [ofRejection, withHint]

/-- A reported rejection has at most three fields, each with what the rejection has. -/
theorem get?_ofRejection : (ofRejection rejection).fields.get? key =
    if key = "position" then rejection.position?.map toString
    else if key = "text" then rejection.text?
    else if key = "line" then rejection.line?.map toString
    else none := by
  have bare : ∀ (fault : Fault) (hint : String), (fault.withHint hint).fields = fault.fields :=
    fun _ _ => rfl
  have none : ∀ (code : Code) (message : String),
      ({ code, message : Fault}).fields.get? key = none := fun _ _ => rfl
  rw [ofRejection, bare, get?_withField?, get?_withField?, get?_withField?, none,
    Option.or_none]
  split
  · rename_i same
    subst same
    simp
  · split
    · rename_i same
      subst same
      simp
    · rfl

end Fault

end HornLogic
