import HornLogic.Json

/-!
# Records in JSON

A record is read from an object, whose unknown members are ignored, or from
an array that lists the fields in order and may stop early.  A field given
twice is refused, and so is an item too many.
-/

namespace HornLogic.Json

/-- The members of an object under their decoded keys. -/
def decodeKeys? : List (List Char × Json) → Option (List (String × Json))
  | [] => some []
  | (key, value) :: rest => do
      let key ← unescape? key
      let rest ← decodeKeys? rest
      some ((String.ofList key, value) :: rest)

def valuesOf (members : List (String × Json)) (name : String) : List Json :=
  (members.filter (·.1 = name)).map (·.2)

def lookupAll? (members : List (String × Json)) :
    List String → Option (List (Option Json))
  | [] => some []
  | name :: rest =>
      match valuesOf members name with
      | [] => (lookupAll? members rest).map (none :: ·)
      | [value] => (lookupAll? members rest).map (some value :: ·)
      | _ => none

/-- The values of a record with the given fields, in the order of the names. -/
def fields? (names : List String) : Json → Option (List (Option Json))
  | .object members => do
      let members ← decodeKeys? members
      lookupAll? members names
  | .array items =>
      if items.length ≤ names.length then
        some (items.map some ++ List.replicate (names.length - items.length) none)
      else none
  | _ => none

/-- Read a value that may be missing or null. -/
def optional? {α : Type} (read : Json → Option α) : Option Json → Option (Option α)
  | none => some none
  | some .null => some none
  | some value => (read value).map some

end HornLogic.Json
