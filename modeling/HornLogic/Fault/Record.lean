import HornLogic.Fault
import HornLogic.Json.Fields
import HornLogic.Json.Reader

/-!
# Faults as records

A fault is stored as a JSON object with all that it holds, and reported among
results as a one-line record that always starts with `"error":true`.  What is
absent is left out; both forms can be read back.
-/

namespace HornLogic

def Details.json (d : Details) : Json :=
  .ofTexts d.entries

def Details.ofMembers? : List (String × Json) → Option (List (String × String))
  | [] => some []
  | (key, value) :: rest => do
      let value ← value.string?
      let rest ← ofMembers? rest
      some ((key, value) :: rest)

/-- Read a map; of entries with the same key the last one counts. -/
def Details.ofJson? : Json → Option Details
  | .object members => do
      let members ← Json.decodeKeys? members
      let entries ← ofMembers? members
      some (.ofList entries)
  | _ => none

namespace Fault

/-- A member that is left out when there is no value. -/
def member? (name : String) (value : Option Json) : List (String × Json) :=
  match value with
  | some value => [(name, value)]
  | none => []

/-- Read a code from its name, or from an object that maps its name to null. -/
def Code.ofJson? : Json → Option Code
  | .object [(key, .null)] => do
      let key ← Json.unescape? key
      Code.ofName? (String.ofList key)
  | value => do
      let name ← value.string?
      Code.ofName? name

def Context.json (context : Context) : Json :=
  .ofMembers (
    member? "fields"
      (if context.fields.isEmpty then none else some context.fields.json) ++
    member? "location" (context.location.map .ofString))

def Context.ofJson? (value : Json) : Option Context := do
  match ← value.fields? ["fields", "location"] with
  | [fields, location] =>
      let fields ← match fields with
        | some fields => Details.ofJson? fields
        | none => some .empty
      let location ← Json.optional? Json.string? location
      some ⟨fields, location⟩
  | _ => none

def toJson (fault : Fault) : Json :=
  .ofMembers ([("code", .ofString fault.code.name),
      ("message", .ofString fault.message)] ++
    member? "context" (fault.context.map Context.json) ++
    member? "hint" (fault.hint.map .ofString))

def ofJson? (value : Json) : Option Fault := do
  match ← value.fields? ["code", "message", "context", "hint"] with
  | [some code, some message, context, hint] =>
      let code ← Code.ofJson? code
      let message ← message.string?
      let context ← Json.optional? Context.ofJson? context
      let hint ← Json.optional? Json.string? hint
      some ⟨code, message, context, hint⟩
  | _ => none

def read? (text : String) : Option Fault :=
  (Json.read? text).bind ofJson?

structure Record where
  error : Bool
  code : Code
  number : Nat
  message : String
  details : Option Details
  hint : Option String
deriving DecidableEq, Inhabited

/-- The record to report a fault with; a context without fields is left out. -/
def record (fault : Fault) : Record where
  error := true
  code := fault.code
  number := fault.code.number
  message := fault.message
  details := if fault.fields.isEmpty then none else some fault.fields
  hint := fault.hint

namespace Record

def json (record : Record) : Json :=
  .ofMembers ([("error", .bool record.error),
      ("code", .ofString record.code.name),
      ("code_num", .ofNat record.number),
      ("message", .ofString record.message)] ++
    member? "details" (record.details.map Details.json) ++
    member? "hint" (record.hint.map .ofString))

def bool? : Json → Option Bool
  | .bool value => some value
  | _ => none

/-- Read a natural number below `2 ^ 32`. -/
def number? (value : Json) : Option Nat := do
  let number ← value.nat?
  if number < UInt32.size then some number else none

def ofJson? (value : Json) : Option Record := do
  match ← value.fields? ["error", "code", "code_num", "message", "details", "hint"] with
  | [some error, some code, some number, some message, details, hint] =>
      let error ← bool? error
      let code ← Code.ofJson? code
      let number ← number? number
      let message ← message.string?
      let details ← Json.optional? Details.ofJson? details
      let hint ← Json.optional? Json.string? hint
      some ⟨error, code, number, message, details, hint⟩
  | _ => none

def read? (text : String) : Option Record :=
  (Json.read? text).bind ofJson?

/-- The record as one line of JSON, without its line feed. -/
def render (record : Record) : String :=
  record.json.render

end Record

end Fault

end HornLogic
