import HornLogic.Settings

/-!
# Overrides

Environment variables that replace single settings.  They are taken in a
fixed order; the first one with a value that is not recognised is reported,
and those before it have taken effect.
-/

namespace HornLogic.Settings

/-- A setting that an environment variable can replace. -/
inductive Override where
  | format
  | logLevel
  | maxDepth
  | conjunction
  | trace
  | ingestPolicy
deriving DecidableEq, Inhabited

namespace Override

/-- Every override, in the order in which they are taken. -/
def all : List Override :=
  [.format, .logLevel, .maxDepth, .conjunction, .trace, .ingestPolicy]

def key : Override → String
  | .format => "HORNET_FORMAT"
  | .logLevel => "HORNET_LOG_LEVEL"
  | .maxDepth => "HORNET_MAX_DEPTH"
  | .conjunction => "HORNET_CONJUNCTION"
  | .trace => "HORNET_TRACE"
  | .ingestPolicy => "HORNET_INGEST_POLICY"

/-- Read a depth limit; white space around it does not count. -/
def readDepth? (value : String) : Option UInt64 :=
  Text.word? (Text.trim value.toList)

def set? (settings : Settings) (value : String) : Override → Option Settings
  | .format => (Choice.ofText? value).map fun format =>
      { settings with general := { settings.general with format := format } }
  | .logLevel => (Choice.ofText? value).map fun level =>
      { settings with general := { settings.general with logLevel := level } }
  | .maxDepth => (readDepth? value).map fun depth =>
      { settings with resolution := { settings.resolution with maxDepth := depth } }
  | .conjunction => (Choice.ofText? value).map fun conjunction =>
      { settings with
        resolution := { settings.resolution with conjunction := conjunction } }
  | .trace => (readFlag? value).map fun trace =>
      { settings with resolution := { settings.resolution with trace := trace } }
  | .ingestPolicy => (Choice.ofText? value).map fun policy =>
      { settings with ingest := { settings.ingest with policy := policy } }

end Override

/-- Take some overrides in order, up to the first that is not recognised. -/
def overrideEach (lookup : String → Option String) (settings : Settings) :
    List Override → Settings × Except Problem Unit
  | [] => (settings, .ok ())
  | override :: rest =>
      match lookup override.key with
      | none => overrideEach lookup settings rest
      | some value =>
          match override.set? settings value with
          | some settings => overrideEach lookup settings rest
          | none => (settings, .error (.invalidValue override.key value))

def overrideFrom (settings : Settings) (lookup : String → Option String) :
    Settings × Except Problem Unit :=
  overrideEach lookup settings Override.all

end HornLogic.Settings
