import HornLogic.Fault.Record
import HornLogic.Proofs.Json.Fields

/-!
# Faults read back

A fault and the record it is reported with are read back from their texts as they were,
whatever texts they hold and in whatever order their fields are written.  What is absent
has no member, and an absent context is told from an empty one.
-/

namespace HornLogic

open Json (Made made_ofFields)

/-! ## Maps -/

namespace Details

/-- An entry with a new key is put between the others. -/
theorem perm_put {key value : String} {entries : List (String × String)}
    (fresh : key ∉ entries.map (·.1)) :
    (put key value entries).Perm ((key, value) :: entries) := by
  induction entries with
  | nil => exact .refl _
  | cons head rest ih =>
      obtain ⟨k, v⟩ := head
      rw [List.map_cons, List.mem_cons, not_or] at fresh
      obtain ⟨different, others⟩ := fresh
      rw [put, if_neg different]
      split
      · exact .refl _
      · exact ((ih others).cons (k, v)).trans (.swap _ _ _)

theorem perm_foldl_insert {entries : List (String × String)}
    (distinct : (entries.map (·.1)).Nodup) {d : Details}
    (fresh : ∀ key ∈ entries.map (·.1), key ∉ d.entries.map (·.1)) :
    (entries.foldl (fun d entry => d.insert entry.1 entry.2) d).entries.Perm
      (entries ++ d.entries) := by
  induction entries generalizing d with
  | nil => exact .refl _
  | cons entry rest ih =>
      obtain ⟨unlike, distinct⟩ := List.nodup_cons.mp distinct
      obtain ⟨first, others⟩ := List.forall_mem_cons.mp fresh
      have put : (d.insert entry.1 entry.2).entries.Perm (entry :: d.entries) :=
        perm_put first
      have still : ∀ key ∈ rest.map (·.1),
          key ∉ (d.insert entry.1 entry.2).entries.map (·.1) := by
        intro key member inside
        rcases List.mem_cons.mp ((put.map (·.1)).subset inside) with same | old
        · exact unlike (same ▸ member)
        · exact others key member old
      exact (ih distinct still).trans ((put.append_left rest).trans List.perm_middle)

theorem ext_entries {a b : Details} (same : a.entries = b.entries) : a = b := by
  cases a
  cases same
  rfl

/-- A map is built up from its entries in any order. -/
theorem ofList_of_perm {entries : List (String × String)} {d : Details}
    (perm : entries.Perm d.entries) : ofList entries = d := by
  have distinct : (entries.map (·.1)).Nodup := by
    refine ((perm.map (·.1)).nodup_iff).mpr (List.pairwise_map.mpr ?_)
    exact d.sorted.imp fun below => (String.lt_irrefl _ <| · ▸ below)
  have built : (ofList entries).entries.Perm d.entries := by
    have built := perm_foldl_insert distinct (d := empty) fun _ _ => List.not_mem_nil
    exact (List.append_nil entries ▸ built).trans perm
  have same : (ofList entries).entries = d.entries :=
    built.eq_of_pairwise
      (fun a b _ _ below above => absurd (String.lt_trans below above) (String.lt_irrefl _))
      (ofList entries).sorted d.sorted
  exact ext_entries same

theorem ofMembers?_ofString (entries : List (String × String)) :
    ofMembers? (entries.map fun entry => (entry.1, Json.ofString entry.2)) =
      some entries := by
  induction entries with
  | nil => rfl
  | cons entry rest ih => simp [ofMembers?, ih]

/-- A map is read back from its entries in any order. -/
theorem ofJson?_ofTexts {entries : List (String × String)} {d : Details}
    (perm : entries.Perm d.entries) : ofJson? (.ofTexts entries) = some d := by
  have keys := Json.decodeKeys?_escapeNames
    (entries.map fun entry => (entry.1, Json.ofString entry.2))
  change (Json.decodeKeys? (Json.escapeNames _)).bind _ = _
  rw [keys, Option.bind_some, ofMembers?_ofString, ← ofList_of_perm perm]
  rfl

end Details

theorem made_ofTexts (entries : List (String × String)) : Made (.ofTexts entries) :=
  .ofMembers (List.forall_mem_map.mpr fun _ _ => .ofString _)

/-! ## Parts -/

/-- A part that may be missing is read back, with its absence told from null. -/
theorem Json.optional?_map {α : Type} {read : Json → Option α} {write : α → Json}
    {value : Option α} (visible : ∀ a ∈ value, write a ≠ .null)
    (back : ∀ a ∈ value, read (write a) = some a) :
    optional? read (value.map write) = some value := by
  cases value with
  | none => rfl
  | some a =>
      rw [Option.map_some]
      unfold optional?
      split
      · rename_i absent
        cases absent
      · rename_i isNull
        exact absurd (Option.some.inj isNull) (visible a rfl)
      · rename_i j _ given
        rw [← Option.some.inj given, back a rfl]
        rfl

theorem Json.optional?_ofString (text : Option String) :
    optional? string? (text.map ofString) = some text :=
  optional?_map (fun _ _ isNull => nomatch isNull) fun text _ => string?_ofString text

namespace Fault

theorem Code.ofJson?_name (code : Code) : ofJson? (.ofString code.name) = some code := by
  have named : ofName? code.name = some code := by
    cases code <;> decide
  change ((Json.ofString code.name).string?).bind ofName? = some code
  rw [Json.string?_ofString, Option.bind_some, named]

/-! ## Contexts -/

namespace Context

/-- The parts of a context, with its fields in a given order. -/
def parts (entries : List (String × String)) (context : Context) : Json.Fields :=
  [("fields", if context.fields.isEmpty then none else some (.ofTexts entries)),
    ("location", context.location.map .ofString)]

def jsonIn (entries : List (String × String)) (context : Context) : Json :=
  .ofFields (context.parts entries)

variable {entries : List (String × String)} {context : Context}

theorem json_eq_jsonIn (context : Context) :
    context.json = context.jsonIn context.fields.entries := by
  rw [json, jsonIn, Json.ofFields, parts]
  cases context.fields.isEmpty <;> cases context.location <;> rfl

theorem nodup_parts : ((context.parts entries).map (·.1)).Nodup := by
  change ["fields", "location"].Nodup
  decide

theorem made_jsonIn : Made (context.jsonIn entries) := by
  refine made_ofFields ?_
  simp only [parts, List.forall_mem_cons]
  refine ⟨?fields, ?location, List.forall_mem_nil _⟩
  case fields =>
    intro j given
    split at given
    · cases given
    · cases given
      exact made_ofTexts entries
  case location =>
    intro j given
    obtain ⟨text, _, rfl⟩ := Option.map_eq_some_iff.mp given
    exact .ofString text

/-- Fields are left out if there are none, and there are none if they are left out. -/
theorem ofJson?_jsonIn (perm : entries.Perm context.fields.entries) :
    ofJson? (context.jsonIn entries) = some context := by
  have found : (context.jsonIn entries).fields? ["fields", "location"] =
      some ((context.parts entries).map (·.2)) :=
    Json.fields?_ofFields nodup_parts fun _ member => member
  have location := Json.optional?_ofString context.location
  rw [ofJson?, found]
  cases none : context.fields.isEmpty with
  | true =>
      have empty : context.fields = .empty := Details.ext_entries (List.isEmpty_iff.mp none)
      simp only [parts, none, if_true, List.map_cons, List.map_nil, location,
        Option.bind_eq_bind, Option.bind_some, ← empty]
  | false =>
      have fields := Details.ofJson?_ofTexts perm
      simp only [parts, none, Bool.false_eq_true, if_false, List.map_cons, List.map_nil,
        fields, location, Option.bind_eq_bind, Option.bind_some]

end Context

/-! ## Faults -/

def parts (entries : List (String × String)) (fault : Fault) : Json.Fields :=
  [("code", some (.ofString fault.code.name)),
    ("message", some (.ofString fault.message)),
    ("context", fault.context.map (Context.jsonIn entries)),
    ("hint", fault.hint.map .ofString)]

/-- A fault in JSON, with the fields of its context in a given order. -/
def jsonIn (entries : List (String × String)) (fault : Fault) : Json :=
  .ofFields (fault.parts entries)

section Faults

variable {entries : List (String × String)} {fault : Fault}

theorem toJson_eq_jsonIn (fault : Fault) :
    fault.toJson = fault.jsonIn fault.fields.entries := by
  have context : fault.context.map Context.json =
      fault.context.map (Context.jsonIn fault.fields.entries) := by
    cases given : fault.context with
    | none => rfl
    | some context =>
        rw [Option.map_some, Option.map_some, Context.json_eq_jsonIn, fields,
          contextOrEmpty, given]
        rfl
  rw [toJson, context, jsonIn, Json.ofFields, parts]
  cases fault.context <;> cases fault.hint <;> rfl

theorem nodup_parts : ((fault.parts entries).map (·.1)).Nodup := by
  change ["code", "message", "context", "hint"].Nodup
  decide

theorem made_map_ofString (text : Option String) :
    ∀ j ∈ text.map Json.ofString, Made j := by
  intro j given
  obtain ⟨text, _, rfl⟩ := Option.map_eq_some_iff.mp given
  exact .ofString text

theorem made_jsonIn : Made (fault.jsonIn entries) := by
  refine made_ofFields ?_
  simp only [parts, List.forall_mem_cons]
  refine ⟨?code, ?message, ?context, made_map_ofString _, List.forall_mem_nil _⟩
  case code =>
    rintro _ ⟨⟩
    exact .ofString _
  case message =>
    rintro _ ⟨⟩
    exact .ofString _
  case context =>
    intro j given
    obtain ⟨context, _, rfl⟩ := Option.map_eq_some_iff.mp given
    exact Context.made_jsonIn

theorem ofJson?_jsonIn (perm : entries.Perm fault.fields.entries) :
    ofJson? (fault.jsonIn entries) = some fault := by
  have found : (fault.jsonIn entries).fields? ["code", "message", "context", "hint"] =
      some ((fault.parts entries).map (·.2)) :=
    Json.fields?_ofFields nodup_parts fun _ member => member
  have context : Json.optional? Context.ofJson?
      (fault.context.map (Context.jsonIn entries)) = some fault.context := by
    refine Json.optional?_map (fun _ _ isNull => nomatch isNull) fun context given => ?_
    refine Context.ofJson?_jsonIn ?_
    rwa [fields, contextOrEmpty, given] at perm
  rw [ofJson?, found]
  simp only [parts, List.map_cons, List.map_nil, Option.bind_eq_bind, Option.bind_some,
    Code.ofJson?_name, Json.string?_ofString, Json.optional?_ofString, context]

theorem read?_jsonIn (perm : entries.Perm fault.fields.entries) :
    read? (fault.jsonIn entries).render = some fault := by
  rw [read?, Json.read?_render made_jsonIn, Option.bind_some, ofJson?_jsonIn perm]

end Faults

/-! ## Records -/

namespace Record

def parts (entries : List (String × String)) (record : Record) : Json.Fields :=
  [("error", some (.bool record.error)),
    ("code", some (.ofString record.code.name)),
    ("code_num", some (.ofNat record.number)),
    ("message", some (.ofString record.message)),
    ("details", record.details.map fun _ => .ofTexts entries),
    ("hint", record.hint.map .ofString)]

/-- A record in JSON, with its details in a given order. -/
def jsonIn (entries : List (String × String)) (record : Record) : Json :=
  .ofFields (record.parts entries)

variable {entries : List (String × String)} {record : Record}

/-- The order of the details does not matter if there are none. -/
theorem json_eq_jsonIn (ordered : ∀ details ∈ record.details, details.entries = entries) :
    record.json = record.jsonIn entries := by
  have details : record.details.map Details.json =
      record.details.map fun _ => .ofTexts entries :=
    Option.map_congr fun details given => congrArg Json.ofTexts (ordered details given)
  rw [json, details, jsonIn, Json.ofFields, parts]
  cases record.details <;> cases record.hint <;> rfl

theorem nodup_parts : ((record.parts entries).map (·.1)).Nodup := by
  change ["error", "code", "code_num", "message", "details", "hint"].Nodup
  decide

theorem made_jsonIn : Made (record.jsonIn entries) := by
  refine made_ofFields ?_
  simp only [parts, List.forall_mem_cons]
  refine ⟨?error, ?code, ?number, ?message, ?details, made_map_ofString _,
    List.forall_mem_nil _⟩
  case error =>
    rintro _ ⟨⟩
    exact .bool _
  case code =>
    rintro _ ⟨⟩
    exact .ofString _
  case number =>
    rintro _ ⟨⟩
    exact .ofNat _
  case message =>
    rintro _ ⟨⟩
    exact .ofString _
  case details =>
    intro j given
    obtain ⟨_, _, rfl⟩ := Option.map_eq_some_iff.mp given
    exact made_ofTexts entries

/-- A record is read back if its number has at most 32 bits. -/
theorem ofJson?_jsonIn (small : record.number < UInt32.size)
    (perm : ∀ details ∈ record.details, entries.Perm details.entries) :
    ofJson? (record.jsonIn entries) = some record := by
  have found : (record.jsonIn entries).fields?
      ["error", "code", "code_num", "message", "details", "hint"] =
        some ((record.parts entries).map (·.2)) :=
    Json.fields?_ofFields nodup_parts fun _ member => member
  have number : number? (.ofNat record.number) = some record.number := by
    rw [number?, Json.nat?_ofNat]
    exact if_pos small
  have details : Json.optional? Details.ofJson?
      (record.details.map fun _ => .ofTexts entries) = some record.details :=
    Json.optional?_map (fun _ _ isNull => nomatch isNull) fun details given =>
      Details.ofJson?_ofTexts (perm details given)
  rw [ofJson?, found]
  simp only [parts, List.map_cons, List.map_nil, Option.bind_eq_bind, Option.bind_some,
    bool?, number, Code.ofJson?_name, Json.string?_ofString, Json.optional?_ofString,
    details]

theorem read?_jsonIn (small : record.number < UInt32.size)
    (perm : ∀ details ∈ record.details, entries.Perm details.entries) {space : List Char}
    (blank : ∀ c ∈ space, Text.isSpace c = true) :
    read? ((record.jsonIn entries).render ++ String.ofList space) = some record := by
  rw [read?, Json.read?_append made_jsonIn blank, Option.bind_some,
    ofJson?_jsonIn small perm]

end Record

/-! ## Texts of faults -/

section Texts

variable (fault : Fault)

theorem number_lt (code : Code) : code.number < UInt32.size := by
  cases code <;> decide

/-- The details of the record are the fields of the context. -/
theorem entries_of_details : ∀ details ∈ fault.record.details,
    details.entries = fault.fields.entries := by
  intro details given
  obtain ⟨_, same⟩ := Option.ite_none_left_eq_some.mp given
  rw [Option.some.inj same]

/-- The record of a fault is read back from its line. -/
theorem read?_record {entries : List (String × String)}
    (perm : entries.Perm fault.fields.entries) {space : List Char}
    (blank : ∀ c ∈ space, Text.isSpace c = true) :
    Record.read? ((fault.record.jsonIn entries).render ++ String.ofList space) =
      some fault.record :=
  Record.read?_jsonIn (number_lt fault.code)
    (fun details given => (fault.entries_of_details details given).symm ▸ perm) blank

theorem read?_recordIn {entries : List (String × String)}
    (perm : entries.Perm fault.fields.entries) :
    Record.read? (fault.record.jsonIn entries).render = some fault.record := by
  have read := fault.read?_record perm (List.forall_mem_nil _)
  rwa [String.ofList_nil, String.append_empty] at read

/-- The details of a record are written in the order of their keys. -/
theorem render_record :
    fault.record.render = (fault.record.jsonIn fault.fields.entries).render := by
  rw [Record.render, Record.json_eq_jsonIn fault.entries_of_details]

theorem read?_render_record (entries : List (String × String)) :
    Json.read? (fault.record.jsonIn entries).render = some (fault.record.jsonIn entries) :=
  Json.read?_render Record.made_jsonIn

/-- The text of a fault is that of the members it has. -/
theorem read?_render : Json.read? fault.toJson.render =
    some (fault.jsonIn fault.fields.entries) := by
  rw [toJson_eq_jsonIn, Json.read?_render made_jsonIn]

theorem names?_jsonIn (entries : List (String × String)) :
    (fault.jsonIn entries).names? = some (Json.present [("code", true), ("message", true),
      ("context", fault.context.isSome), ("hint", fault.hint.isSome)]) := by
  rw [jsonIn, Json.names?_ofFields]
  simp [parts]

theorem names?_context (entries : List (String × String)) :
    ((fault.jsonIn entries).field? "context").bind Json.names? =
      fault.context.map fun context => Json.present
        [("fields", !context.fields.isEmpty), ("location", context.location.isSome)] := by
  have found : (fault.jsonIn entries).field? "context" =
      fault.context.map (Context.jsonIn entries) :=
    Json.field?_ofFields nodup_parts (by simp [parts])
  rw [found]
  cases fault.context with
  | none => rfl
  | some context =>
      rw [Option.map_some, Option.bind_some, Context.jsonIn, Json.names?_ofFields]
      cases none : context.fields.isEmpty <;> simp [Context.parts, none]

theorem names?_record (entries : List (String × String)) :
    (fault.record.jsonIn entries).names? = some (Json.present [("error", true),
      ("code", true), ("code_num", true), ("message", true),
      ("details", !fault.fields.isEmpty), ("hint", fault.hint.isSome)]) := by
  rw [Record.jsonIn, Json.names?_ofFields]
  cases none : fault.fields.isEmpty <;> simp [Record.parts, record, none]

/-- Faults with the same text are the same. -/
theorem toJson_render_injective {fault other : Fault}
    (same : fault.toJson.render = other.toJson.render) : fault = other := by
  have read (fault : Fault) : read? fault.toJson.render = some fault := by
    rw [toJson_eq_jsonIn, read?_jsonIn (.refl _)]
  have found := read fault
  rw [same, read other] at found
  exact (Option.some.inj found).symm

/--
A fault and its record are read back from their texts, in whatever order the fields
are written.  What is absent is left out of the text, and an absent context is written
in another way than an empty one.
-/
theorem read_back :
    (read? fault.toJson.render = some fault ∧
      Record.read? fault.record.render = some fault.record ∧
      Record.read? (fault.record.render ++ "\n") = some fault.record) ∧
    (∀ entries, entries.Perm fault.fields.entries →
      read? (fault.jsonIn entries).render = some fault ∧
      Record.read? (fault.record.jsonIn entries).render = some fault.record) ∧
    (Json.read? fault.toJson.render).bind Json.names? =
      some (Json.present [("code", true), ("message", true),
        ("context", fault.context.isSome), ("hint", fault.hint.isSome)]) ∧
    ((Json.read? fault.toJson.render).bind (Json.field? "context")).bind Json.names? =
      (fault.context.map fun context => Json.present
        [("fields", !context.fields.isEmpty), ("location", context.location.isSome)]) ∧
    (Json.read? fault.record.render).bind Json.names? =
      some (Json.present [("error", true), ("code", true), ("code_num", true),
        ("message", true), ("details", !fault.fields.isEmpty),
        ("hint", fault.hint.isSome)]) ∧
    ({ fault with context := none }).toJson.render ≠
      ({ fault with context := some {} }).toJson.render := by
  refine ⟨⟨?text, ?line, ?fed⟩, ?orders, ?names, ?contexts, ?recordNames, ?apart⟩
  case text => rw [toJson_eq_jsonIn, read?_jsonIn (.refl _)]
  case line => rw [render_record, read?_recordIn fault (.refl _)]
  case fed =>
    have feed : ∀ c ∈ ['\n'], Text.isSpace c = true := List.forall_mem_singleton.mpr rfl
    rw [render_record]
    exact fault.read?_record (.refl _) feed
  case orders => exact fun entries perm => ⟨read?_jsonIn perm, read?_recordIn fault perm⟩
  case names => rw [read?_render, Option.bind_some, names?_jsonIn]
  case contexts => rw [read?_render, Option.bind_some, names?_context]
  case recordNames =>
    rw [render_record, read?_render_record, Option.bind_some, names?_record]
  case apart =>
    intro same
    cases congrArg Fault.context (toJson_render_injective same)

def escapedFault : Fault where
  code := .invalidPredicate
  message := "\t\x01é😀"
  context := some { fields := ⟨[("line", "1"), ("text", "p(\"\\\n")], by decide⟩ }
  hint := some ""

/-- The order in which the two fields are written makes no difference. -/
theorem read_back_reversed :
    [("text", "p(\"\\\n"), ("line", "1")].Perm escapedFault.fields.entries ∧
    read? (escapedFault.jsonIn [("text", "p(\"\\\n"), ("line", "1")]).render =
      some escapedFault ∧
    Record.read? (escapedFault.record.jsonIn
      [("text", "p(\"\\\n"), ("line", "1")]).render = some escapedFault.record :=
  ⟨.swap _ _ _, (read_back escapedFault).2.1 _ (.swap _ _ _)⟩

end Texts

end Fault

end HornLogic
