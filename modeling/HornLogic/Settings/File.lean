import HornLogic.Settings
import HornLogic.Toml.Document

/-!
# Settings files

Settings are written as a TOML document with a table for each section, and
read from any TOML document.  What a document does not mention keeps its
default, and what it mentions beyond the settings is ignored.  A section may
also be an array that lists its settings in order.
-/

namespace HornLogic.Settings

open Toml (Value)

/-! ## Writing -/

def textLine (key value : String) : String :=
  key ++ " = \"" ++ value ++ "\"\n"

def document (settings : Settings) : String :=
  "[general]\n" ++
  textLine "format" (Choice.name settings.general.format) ++
  textLine "log_level" (Choice.name settings.general.logLevel) ++
  "\n[resolution]\n" ++
  "max_depth = " ++ toString settings.resolution.maxDepth.toNat ++ "\n" ++
  textLine "conjunction" (Choice.name settings.resolution.conjunction) ++
  "trace = " ++ (if settings.resolution.trace then "true" else "false") ++ "\n" ++
  "\n[ingest]\n" ++
  textLine "policy" (Choice.name settings.ingest.policy)

/-- Write settings, unless the depth limit is beyond the integers of TOML. -/
def write (settings : Settings) : Except Problem String :=
  if Toml.isInteger settings.resolution.maxDepth.toNat then
    .ok settings.document
  else
    .error (.unwritable "out-of-range value")

/-! ## Reading -/

def isVoid : Value → Bool
  | .table [] => true
  | .array [] => true
  | _ => false

/-- Read a choice: its name, or a table that maps its name to nothing. -/
def readChoice? {α : Type} [Choice α] : Value → Option α
  | .string name => Choice.ofName? name
  | .table [(name, value)] => if isVoid value then Choice.ofName? name else none
  | _ => none

def readLimit? : Value → Option UInt64
  | .integer value => if 0 ≤ value then some (UInt64.ofNat value.toNat) else none
  | _ => none

def readBool? : Value → Option Bool
  | .bool value => some value
  | _ => none

def section? (keys : List String) : Option Value → Option (List (Option Value))
  | none => some (keys.map fun _ => none)
  | some (.table entries) => some (keys.map fun key => entries.lookup key)
  | some (.array items) => some ((items.take keys.length).map some ++
      List.replicate (keys.length - items.length) none)
  | some (.moment _) => some (keys.map fun _ => none)
  | some _ => none

/-- Read a value, or take the default if there is none. -/
def orDefault? {α : Type} (default : α) (read : Value → Option α) :
    Option Value → Option α
  | none => some default
  | some value => read value

def readGeneral? (value : Option Value) : Option General := do
  match ← section? ["format", "log_level"] value with
  | [format, level] =>
      let format ← orDefault? .text readChoice? format
      let level ← orDefault? .normal readChoice? level
      some ⟨format, level⟩
  | _ => none

def readResolving? (value : Option Value) : Option Resolving := do
  match ← section? ["max_depth", "conjunction", "trace"] value with
  | [depth, conjunction, trace] =>
      let depth ← orDefault? 0 readLimit? depth
      let conjunction ← orDefault? .threaded readChoice? conjunction
      let trace ← orDefault? false readBool? trace
      some ⟨depth, conjunction, trace⟩
  | _ => none

def readIngesting? (value : Option Value) : Option Ingesting := do
  match ← section? ["policy"] value with
  | [policy] =>
      let policy ← orDefault? .allOrNothing readChoice? policy
      some ⟨policy⟩
  | _ => none

def ofEntries? (entries : List (String × Value)) : Option Settings := do
  let general ← readGeneral? (entries.lookup "general")
  let resolution ← readResolving? (entries.lookup "resolution")
  let ingest ← readIngesting? (entries.lookup "ingest")
  some ⟨general, resolution, ingest⟩

def readFrom (path text : String) : Except Problem Settings :=
  match (Toml.read? text).bind ofEntries? with
  | some settings => .ok settings
  | none => .error (.malformed path "not a settings document")

def read (text : String) : Except Problem Settings :=
  readFrom "<string>" text

/-- A document with every setting at its default and a comment on each. -/
def template : String :=
  "# hornet configuration file\n" ++
  "\n" ++
  "[general]\n" ++
  "# Output format: text, json\n" ++
  "format = \"text\"\n" ++
  "# Logging level: quiet, normal, verbose, debug\n" ++
  "log_level = \"normal\"\n" ++
  "\n" ++
  "[resolution]\n" ++
  "# Maximum goal depth (0 = unlimited)\n" ++
  "max_depth = 0\n" ++
  "# How rule bodies are solved: threaded, single-pass\n" ++
  "conjunction = \"threaded\"\n" ++
  "# Print derivation traces after results\n" ++
  "trace = false\n" ++
  "\n" ++
  "[ingest]\n" ++
  "# On a malformed statement: all-or-nothing, prefix\n" ++
  "policy = \"all-or-nothing\"\n"

end HornLogic.Settings
