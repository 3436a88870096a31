import HornLogic.Session
import HornLogic.Text.Blank

/-!
# Choices

A setting with a few alternatives is written by the name of one of them.  A
settings file has to use the name itself; elsewhere the case of letters does
not count and each alternative also goes by some other names.
-/

namespace HornLogic

/-- A type with named alternatives. -/
class Choice (α : Type) where
  /-- Every alternative. -/
  all : List α
  /-- The name of an alternative. -/
  name : α → String
  /-- The other names it goes by, in lower case. -/
  otherNames : α → List String

namespace Choice

variable {α : Type} [Choice α]

def ofName? (name : String) : Option α :=
  (all : List α).find? fun a => Choice.name a = name

/--
The alternative that a text names.  The names are ASCII words, and no letter
outside ASCII has one of their letters as its lower-case form.
-/
def ofText? (text : String) : Option α :=
  let lowered := String.ofList (text.toList.map Char.toLower)
  (all : List α).find? fun a => Choice.name a = lowered ∨ lowered ∈ otherNames a

end Choice

instance : Choice OutputFormat where
  all := [.text, .json]
  name
    | .text => "text"
    | .json => "json"
  otherNames
    | .text => ["plain", "txt"]
    | .json => []

instance : Choice Conjunction where
  all := [.threaded, .singlePass]
  name
    | .threaded => "threaded"
    | .singlePass => "single-pass"
  otherNames
    | .threaded => ["sld", "full"]
    | .singlePass => ["single_pass", "singlepass", "simple"]

instance : Choice IngestPolicy where
  all := [.allOrNothing, .keepLeading]
  name
    | .allOrNothing => "all-or-nothing"
    | .keepLeading => "prefix"
  otherNames
    | .allOrNothing => ["all_or_nothing", "atomic", "all"]
    | .keepLeading => ["partial"]

inductive LogLevel where
  | quiet
  | normal
  | verbose
  | debug
deriving DecidableEq, Inhabited

instance : Choice LogLevel where
  all := [.quiet, .normal, .verbose, .debug]
  name
    | .quiet => "quiet"
    | .normal => "normal"
    | .verbose => "verbose"
    | .debug => "debug"
  otherNames
    | .quiet => ["q", "0"]
    | .normal => ["n", "1"]
    | .verbose => ["v", "2"]
    | .debug => ["d", "3"]

/-- The least severity of the messages that a level lets through. -/
def LogLevel.directive : LogLevel → String
  | .quiet => "error"
  | .normal => "warn"
  | .verbose => "info"
  | .debug => "debug"

/-- Read a truth value in one of its usual spellings. -/
def readFlag? (text : String) : Option Bool :=
  let lowered := String.ofList ((Text.trim text.toList).map Char.toLower)
  if lowered ∈ ["true", "1", "yes", "on"] then some true
  else if lowered ∈ ["false", "0", "no", "off"] then some false
  else none

end HornLogic
