import HornLogic.Text.Numeral
import Mathlib.Algebra.Ring.Nat

/-!
# Numerals written and read

A number is written as a row of decimal digits, with a zero in front only if it is zero.
What is read from that row is the number again.
-/

namespace HornLogic.Text

/-! ## Reading -/

theorem natural?_eq_some_iff {text : List Char} {n : Nat} :
    natural? text = some n ↔
      text ≠ [] ∧ (∀ c ∈ text, c.isDigit = true) ∧ ofDigits 10 text = n := by
  rw [natural?, Option.ite_none_right_eq_some, Option.some.injEq, List.all_eq_true,
    and_assoc]

/-- A numeral is a row of digits, with or without a plus sign. -/
theorem word?_eq_some_iff {text : List Char} {n : UInt64} :
    word? text = some n ↔ ∃ digits, (text = digits ∨ text = '+' :: digits) ∧
      digits ≠ [] ∧ (∀ c ∈ digits, c.isDigit = true) ∧ ofDigits 10 digits = n.toNat := by
  have bounded (digits : List Char) :
      ((natural? digits).bind fun value =>
        if value < UInt64.size then some (UInt64.ofNat value) else none) = some n ↔
        digits ≠ [] ∧ (∀ c ∈ digits, c.isDigit = true) ∧
          ofDigits 10 digits = n.toNat := by
    rw [← natural?_eq_some_iff, Option.bind_eq_some_iff]
    constructor
    · rintro ⟨value, isValue, isWord⟩
      obtain ⟨small, same⟩ := Option.ite_none_right_eq_some.mp isWord
      cases same
      rw [isValue, UInt64.toNat_ofNat_of_lt' small]
    · intro isValue
      exact ⟨n.toNat, isValue, by rw [if_pos n.toNat_lt, UInt64.ofNat_toNat]⟩
  unfold word?
  split
  · rename_i behind
    constructor
    · intro isWord
      exact ⟨behind, .inr rfl, (bounded behind).mp isWord⟩
    · rintro ⟨digits, rfl | same, numeral⟩
      · exact absurd (numeral.2.1 '+' List.mem_cons_self) (by decide)
      · cases same
        exact (bounded behind).mpr numeral
  · rename_i unsigned
    constructor
    · intro isWord
      exact ⟨text, .inl rfl, (bounded text).mp isWord⟩
    · rintro ⟨digits, rfl | same, numeral⟩
      · exact (bounded text).mpr numeral
      · exact absurd same (unsigned digits)

/-! ## Writing -/

theorem isDigit_of_mem_toDigits {n : Nat} : ∀ c ∈ Nat.toDigits 10 n, c.isDigit = true :=
  fun _ member => Nat.isDigit_of_mem_toDigits (by decide) (by decide) member

/-- The value of a row of decimal digits, digit by digit. -/
theorem ofDigits_ten {digits : List Char} (each : ∀ c ∈ digits, c.isDigit = true) :
    ofDigits 10 digits = Nat.ofDigitChars 10 digits 0 := by
  rw [ofDigits, Nat.ofDigitChars]
  generalize (0 : Nat) = value
  induction digits generalizing value with
  | nil => rfl
  | cons c digits ih =>
      obtain ⟨digit, others⟩ := List.forall_mem_cons.mp each
      rw [List.foldl_cons, List.foldl_cons, digitValue, if_pos digit, Nat.mul_comm value,
        ih others]

theorem ofDigits_toDigits (n : Nat) : ofDigits 10 (Nat.toDigits 10 n) = n := by
  rw [ofDigits_ten isDigit_of_mem_toDigits, Nat.ofDigitChars_ten_toDigits]

theorem natural?_toDigits (n : Nat) : natural? (Nat.toDigits 10 n) = some n :=
  natural?_eq_some_iff.mpr
    ⟨Nat.toDigits_ne_nil, isDigit_of_mem_toDigits, ofDigits_toDigits n⟩

theorem eq_zero_of_toDigits {n : Nat} {rest : List Char}
    (written : Nat.toDigits 10 n = '0' :: rest) : n = 0 := by
  induction n using Nat.strong_induction_on generalizing rest with
  | _ n ih =>
      by_cases single : n < 10
      · rw [Nat.toDigits_of_lt_base single, List.cons.injEq, Nat.digitChar_eq_zero] at written
        exact written.1
      · -- the leading digit is that of a smaller number, which is not zero
        rw [Nat.toDigits_of_base_le (by decide) (Nat.not_lt.mp single)] at written
        cases front : Nat.toDigits 10 (n / 10) with
        | nil => exact absurd front Nat.toDigits_ne_nil
        | cons c digits =>
            rw [front, List.cons_append, List.cons.injEq] at written
            rw [written.1] at front
            have zero := ih (n / 10) (by omega) front
            omega

/-- Behind a leading zero there is no further digit. -/
theorem toDigits_of_leading_zero {n : Nat} {rest : List Char}
    (written : Nat.toDigits 10 n = '0' :: rest) : rest = [] := by
  rw [eq_zero_of_toDigits written, Nat.toDigits_zero] at written
  exact (List.cons.inj written).2.symm

end HornLogic.Text
