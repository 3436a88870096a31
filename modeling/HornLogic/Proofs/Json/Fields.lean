import HornLogic.Json.Fields
import HornLogic.Proofs.Json.Reader

/-!
# Records read back

A record is written with those of its fields that have a value.  Its names are decoded
to what they were, and every field is found under its name with the value it had, or
without one.
-/

namespace HornLogic.Json

/-! ## Values of fields -/

@[simp] theorem string?_ofString (text : String) : (ofString text).string? = some text := by
  rw [ofString, string?, unescape?_escape, Option.map_some, String.ofList_toList]

@[simp] theorem nat?_ofNat (n : Nat) : (ofNat n).nat? = some n :=
  Text.natural?_toDigits n

theorem decodeKeys?_escapeNames (members : List (String × Json)) :
    decodeKeys? (escapeNames members) = some members := by
  induction members with
  | nil => rfl
  | cons member members ih =>
      change (do
        let key ← unescape? (escape member.1.toList)
        let rest ← decodeKeys? (escapeNames members)
        some ((String.ofList key, member.2) :: rest)) = _
      rw [unescape?_escape, ih]
      simp

def items? {α : Type} (read : Json → Option α) : Json → Option (List α)
  | .array items => items.mapM read
  | _ => none

/-- The values of an object that has members of these names in this order, and no
others. -/
def members? (names : List String) : Json → Option (List Json)
  | .object members => do
      let members ← decodeKeys? members
      if members.map (·.1) = names then some (members.map (·.2)) else none
  | _ => none

theorem items?_map {α β : Type} {read : Json → Option β} {write : α → Json} {said : α → β}
    (back : ∀ a, read (write a) = some (said a)) (values : List α) :
    items? read (.array (values.map write)) = some (values.map said) := by
  rw [items?]
  induction values with
  | nil => rfl
  | cons a values ih => simp [back, ih]

theorem members?_ofMembers {members : List (String × Json)} {names : List String}
    {values : List Json} (named : members.map (·.1) = names)
    (valued : members.map (·.2) = values) :
    (ofMembers members).members? names = some values := by
  change ((decodeKeys? (escapeNames members)).bind _) = _
  rw [decodeKeys?_escapeNames, Option.bind_some, if_pos named, valued]

/-! ## Fields -/

/-- Fields that may have no value, and are left out if they have none. -/
abbrev Fields := List (String × Option Json)

def Fields.members (fields : Fields) : List (String × Json) :=
  fields.filterMap fun field => field.2.map (field.1, ·)

def ofFields (fields : Fields) : Json :=
  .ofMembers fields.members

def present (names : List (String × Bool)) : List String :=
  (names.filter (·.2)).map (·.1)

def names? : Json → Option (List String)
  | .object members => (decodeKeys? members).map fun members => members.map (·.1)
  | _ => none

def field? (name : String) (record : Json) : Option Json :=
  (record.fields? [name]).bind fun values => values.head?.join

section Fields

variable {fields : Fields}

theorem made_ofFields (made : ∀ field ∈ fields, ∀ j ∈ field.2, Made j) :
    Made (ofFields fields) := by
  refine .ofMembers fun member inside => ?_
  obtain ⟨field, among, isMember⟩ := List.mem_filterMap.mp inside
  obtain ⟨j, isValue, rfl⟩ := Option.map_eq_some_iff.mp isMember
  exact made field among j isValue

theorem names?_ofFields (fields : Fields) :
    (ofFields fields).names? =
      some (present (fields.map fun field => (field.1, field.2.isSome))) := by
  have names : fields.members.map (·.1) =
      present (fields.map fun field => (field.1, field.2.isSome)) := by
    rw [Fields.members, present]
    induction fields with
    | nil => rfl
    | cons field fields ih =>
        obtain ⟨name, value⟩ := field
        cases value <;> simp [ih]
  change (decodeKeys? (escapeNames fields.members)).map _ = _
  rw [decodeKeys?_escapeNames, Option.map_some, names]

theorem valuesOf_of_not_mem {name : String} (absent : name ∉ fields.map (·.1)) :
    valuesOf fields.members name = [] := by
  rw [valuesOf, List.map_eq_nil_iff, List.filter_eq_nil_iff]
  intro member inside
  obtain ⟨field, among, isMember⟩ := List.mem_filterMap.mp inside
  obtain ⟨j, _, rfl⟩ := Option.map_eq_some_iff.mp isMember
  rw [decide_eq_true_iff]
  rintro rfl
  exact absent (List.mem_map_of_mem among)

theorem valuesOf_members_cons (name : String) (value : Option Json) (rest : Fields)
    (other : String) : valuesOf (Fields.members ((name, value) :: rest)) other =
      (if name = other then value.toList else []) ++
        valuesOf (Fields.members rest) other := by
  cases value with
  | none => simp [Fields.members]
  | some j => by_cases same : name = other <;> simp [Fields.members, valuesOf, same]

/-- The values given for the name of a field are its own, if no other field has it. -/
theorem valuesOf_members (distinct : (fields.map (·.1)).Nodup)
    {field : String × Option Json} (among : field ∈ fields) :
    valuesOf fields.members field.1 = field.2.toList := by
  induction fields with
  | nil => cases among
  | cons head rest ih =>
      obtain ⟨name, value⟩ := head
      obtain ⟨fresh, distinct⟩ := List.nodup_cons.mp distinct
      rw [valuesOf_members_cons]
      rcases List.mem_cons.mp among with rfl | later
      · rw [if_pos rfl, valuesOf_of_not_mem fresh, List.append_nil]
      · have named : field.1 ∈ rest.map (·.1) := List.mem_map_of_mem later
        have other : name ≠ field.1 := fun same => fresh (same ▸ named)
        rw [if_neg other, List.nil_append, ih distinct later]

/-- Every field of a record is found under its name, with or without a value. -/
theorem lookupAll?_members (distinct : (fields.map (·.1)).Nodup) {wanted : Fields}
    (among : ∀ field ∈ wanted, field ∈ fields) :
    lookupAll? fields.members (wanted.map (·.1)) = some (wanted.map (·.2)) := by
  induction wanted with
  | nil => rfl
  | cons field wanted ih =>
      obtain ⟨first, others⟩ := List.forall_mem_cons.mp among
      have values := valuesOf_members distinct first
      rw [List.map_cons, List.map_cons, lookupAll?, ih others]
      cases given : field.2 <;> rw [given] at values <;> rw [values] <;> rfl

theorem fields?_ofFields (distinct : (fields.map (·.1)).Nodup) {wanted : Fields}
    (among : ∀ field ∈ wanted, field ∈ fields) :
    (ofFields fields).fields? (wanted.map (·.1)) = some (wanted.map (·.2)) := by
  change (decodeKeys? (escapeNames fields.members)).bind _ = _
  rw [decodeKeys?_escapeNames, Option.bind_some, lookupAll?_members distinct among]

theorem field?_ofFields (distinct : (fields.map (·.1)).Nodup) {name : String}
    {value : Option Json} (among : (name, value) ∈ fields) :
    field? name (ofFields fields) = value := by
  have wanted : ∀ field ∈ [(name, value)], field ∈ fields :=
    List.forall_mem_singleton.mpr among
  have found : (ofFields fields).fields? [name] = some [value] :=
    fields?_ofFields distinct wanted
  rw [field?, found]
  rfl

end Fields

end HornLogic.Json
