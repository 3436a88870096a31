import HornLogic.Settings.Choice
import HornLogic.Text.Quoted

/-!
# Settings

The settings of the program, in three sections.  They come from a settings
file, then from environment variables, then from the command line.
-/

namespace HornLogic

namespace Settings

structure General where
  format : OutputFormat := .text
  logLevel : LogLevel := .normal
deriving DecidableEq, Inhabited

structure Resolving where
  /-- The greatest depth of a goal; zero stands for no limit. -/
  maxDepth : UInt64 := 0
  conjunction : Conjunction := .threaded
  /-- Whether derivations are printed behind results. -/
  trace : Bool := false
deriving DecidableEq, Inhabited

structure Ingesting where
  policy : IngestPolicy := .allOrNothing
deriving DecidableEq, Inhabited

inductive Problem where
  | unreadable (path message : String)
  | malformed (path message : String)
  | unwritable (message : String)
  | invalidValue (key value : String)
deriving DecidableEq, Inhabited

def Problem.message : Problem → String
  | .unreadable path message => "IO error reading " ++ path ++ ": " ++ message
  | .malformed path message => "Parse error in " ++ path ++ ": " ++ message
  | .unwritable message => "Serialization error: " ++ message
  | .invalidValue key value =>
      "Invalid value for " ++ key ++ ": " ++ Text.quoted value

end Settings

structure Settings where
  general : Settings.General := {}
  resolution : Settings.Resolving := {}
  ingest : Settings.Ingesting := {}
deriving DecidableEq, Inhabited

namespace Settings

def engine (settings : Settings) : EngineSettings where
  search :=
    { maxDepth := settings.resolution.maxDepth
      conjunction := settings.resolution.conjunction }
  ingest := settings.ingest.policy

end Settings

end HornLogic
