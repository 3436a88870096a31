import HornLogic.Json

/-!
# Records on one line

What is written in JSON has no control character in it, whatever texts it holds: in
literals they are escaped, and nothing else is written between the values than brackets,
colons and commas.  So every record stands on one line.
-/

namespace HornLogic

namespace Json

/-! ## Texts without controls -/

def Flat (text : List Char) : Prop :=
  ∀ c ∈ text, 32 ≤ c.toNat

@[simp] theorem flat_nil : Flat [] :=
  List.forall_mem_nil _

@[simp] theorem flat_cons_iff {c : Char} {text : List Char} :
    Flat (c :: text) ↔ 32 ≤ c.toNat ∧ Flat text :=
  List.forall_mem_cons

@[simp] theorem flat_append_iff {front back : List Char} :
    Flat (front ++ back) ↔ Flat front ∧ Flat back :=
  List.forall_mem_append

/-- There is no end of a line in a text without controls. -/
theorem Flat.not_mem {text : List Char} (flat : Flat text) {c : Char}
    (control : c.toNat < 32) : c ∉ text :=
  fun member => absurd (flat c member) (Nat.not_le.mpr control)

/-! ## Literals and numerals -/

theorem flat_fourHexDigits {code : Nat} (control : code < 32) :
    Flat (Text.fourHexDigits code) := by
  have each : ∀ code < 32,
      (Text.fourHexDigits code).all (fun c => decide (32 ≤ c.toNat)) = true := by decide
  intro c member
  exact of_decide_eq_true (List.all_eq_true.mp (each code control) c member)

theorem flat_escapeChar (c : Char) : Flat (escapeChar c) := by
  unfold escapeChar
  -- the seven characters with a short escape
  iterate 7
    split
    · simp
  split
  · rename_i control
    exact flat_cons_iff.mpr ⟨by decide, flat_cons_iff.mpr
      ⟨by decide, flat_fourHexDigits control⟩⟩
  · rename_i visible
    simpa using visible

theorem flat_escape (text : List Char) : Flat (escape text) :=
  List.forall_mem_flatMap.mpr fun c _ => flat_escapeChar c

theorem flat_quote_escape (text : List Char) : Flat (quote (escape text)) := by
  simp [quote, flat_escape]

theorem flat_ofString (text : String) : Flat (ofString text).chars := by
  rw [ofString, chars]
  exact flat_quote_escape _

theorem flat_ofNat (n : Nat) : Flat (ofNat n).chars := by
  rw [ofNat, chars]
  intro c member
  have digit := Nat.isDigit_of_mem_toDigits (by decide) (by decide) member
  exact Nat.le_trans (by decide) (Char.isDigit_iff_toNat.mp digit).1

theorem flat_bool (value : Bool) : Flat (bool value).chars := by
  cases value <;> rw [chars] <;> simp

/-! ## Arrays and objects -/

theorem flat_moreItemChars {items : List Json} (flat : ∀ item ∈ items, Flat item.chars) :
    Flat (moreItemChars items) := by
  induction items with
  | nil => simp [moreItemChars]
  | cons item items ih =>
      obtain ⟨first, others⟩ := List.forall_mem_cons.mp flat
      simp [moreItemChars, first, ih others]

theorem flat_array {items : List Json} (flat : ∀ item ∈ items, Flat item.chars) :
    Flat (array items).chars := by
  rw [chars]
  cases items with
  | nil => simp [itemChars]
  | cons item items =>
      obtain ⟨first, others⟩ := List.forall_mem_cons.mp flat
      simp [itemChars, first, flat_moreItemChars others]

theorem flat_moreMemberChars {members : List (String × Json)}
    (flat : ∀ member ∈ members, Flat member.2.chars) :
    Flat (moreMemberChars (members.map fun member =>
      (escape member.1.toList, member.2))) := by
  induction members with
  | nil => simp [moreMemberChars]
  | cons member members ih =>
      obtain ⟨first, others⟩ := List.forall_mem_cons.mp flat
      simp [moreMemberChars, flat_quote_escape, first, ih others]

theorem flat_ofMembers {members : List (String × Json)}
    (flat : ∀ member ∈ members, Flat member.2.chars) : Flat (ofMembers members).chars := by
  rw [ofMembers, chars]
  cases members with
  | nil => simp [memberChars]
  | cons member members =>
      obtain ⟨first, others⟩ := List.forall_mem_cons.mp flat
      simp [memberChars, flat_quote_escape, first, flat_moreMemberChars others]

/-- An object is written with its first member in front. -/
theorem prefix_ofMembers (name : String) (value : Json) (others : List (String × Json)) :
    '\x7b' :: (quote (escape name.toList) ++ ':' :: value.chars) <+:
      (ofMembers ((name, value) :: others)).chars := by
  rw [ofMembers, chars, List.map_cons, memberChars]
  simp

/-! ## Records -/

/-- The values that records are made of. -/
inductive Made : Json → Prop where
  | bool (value : Bool) : Made (.bool value)
  | ofString (text : String) : Made (.ofString text)
  | ofNat (n : Nat) : Made (.ofNat n)
  | array {items : List Json} (each : ∀ item ∈ items, Made item) : Made (.array items)
  | ofMembers {members : List (String × Json)}
      (each : ∀ member ∈ members, Made member.2) : Made (.ofMembers members)

theorem Made.flat {j : Json} (made : Made j) : Flat j.chars := by
  induction made with
  | bool value => exact flat_bool value
  | ofString text => exact flat_ofString text
  | ofNat n => exact flat_ofNat n
  | array _ ih => exact flat_array ih
  | ofMembers _ ih => exact flat_ofMembers ih

end Json

end HornLogic
