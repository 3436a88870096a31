import HornLogic.Session
import HornLogic.Text.Numeral

/-!
# Command lines

What the arguments of the program ask for.  Options may stand anywhere among
the files; behind `--` every argument is a file.  An argument that starts
with a hyphen is never the value of the option in front of it.  Only queries
and files may be given more than once.
-/

namespace HornLogic

namespace CommandLine

inductive Switch where
  | query
  | trace
  | maxDepth
  | singlePass
  | format
  | config
  | initConfig
  | verbose
  | quiet
  | help
  | version
deriving DecidableEq, Inhabited

namespace Switch

def all : List Switch :=
  [.query, .trace, .maxDepth, .singlePass, .format, .config, .initConfig, .verbose,
    .quiet, .help, .version]

def long : Switch → String
  | .query => "query"
  | .trace => "trace"
  | .maxDepth => "max-depth"
  | .singlePass => "single-pass"
  | .format => "format"
  | .config => "config"
  | .initConfig => "init-config"
  | .verbose => "verbose"
  | .quiet => "quiet"
  | .help => "help"
  | .version => "version"

def short? : Switch → Option Char
  | .query => some 'e'
  | .format => some 'f'
  | .config => some 'c'
  | .verbose => some 'v'
  | .quiet => some 'q'
  | .help => some 'h'
  | .version => some 'V'
  | _ => none

def takesValue : Switch → Bool
  | .query | .maxDepth | .format | .config => true
  | _ => false

def ofLong? (name : String) : Option Switch :=
  all.find? fun switch => switch.long = name

def ofShort? (letter : Char) : Option Switch :=
  all.find? fun switch => switch.short? = some letter

end Switch

/-- Why the arguments do not ask for a run. -/
inductive Stop where
  /-- They cannot be understood. -/
  | usage
  /-- They ask for help. -/
  | help
  /-- They ask for the version. -/
  | version
deriving DecidableEq, Inhabited

end CommandLine

structure CommandLine where
  files : List String := []
  queries : List String := []
  trace : Bool := false
  maxDepth : Option UInt64 := none
  singlePass : Bool := false
  format : Option OutputFormat := none
  config : Option String := none
  initConfig : Bool := false
  verbose : Bool := false
  quiet : Bool := false
deriving DecidableEq, Inhabited

namespace CommandLine

/-- Set a flag that may be given once. -/
def once (given : Bool) (set : CommandLine) : Except Stop CommandLine :=
  if given then .error .usage else .ok set

def flag (cl : CommandLine) : Switch → Except Stop CommandLine
  | .trace => once cl.trace { cl with trace := true }
  | .singlePass => once cl.singlePass { cl with singlePass := true }
  | .initConfig => once cl.initConfig { cl with initConfig := true }
  | .verbose => once cl.verbose { cl with verbose := true }
  | .quiet => once cl.quiet { cl with quiet := true }
  | .help => .error .help
  | .version => .error .version
  | _ => .error .usage

/-- Read the name of a format; its case counts. -/
def readFormat? (value : String) : Option OutputFormat :=
  if value = "text" then some .text
  else if value = "json" then some .json
  else none

def take (cl : CommandLine) (value : String) : Switch → Except Stop CommandLine
  | .query => .ok { cl with queries := cl.queries ++ [value] }
  | .maxDepth =>
      match Text.word? value.toList with
      | some depth => once cl.maxDepth.isSome { cl with maxDepth := some depth }
      | none => .error .usage
  | .format =>
      match readFormat? value with
      | some format => once cl.format.isSome { cl with format := some format }
      | none => .error .usage
  | .config =>
      if value = "" then .error .usage
      else once cl.config.isSome { cl with config := some value }
  | _ => .error .usage

def takeFile (cl : CommandLine) (path : String) : Except Stop CommandLine :=
  if path = "" then .error .usage else .ok { cl with files := cl.files ++ [path] }

/-- Whether an argument may be the value of the option in front of it. -/
def mayBeValue (argument : String) : Bool :=
  argument = "-" || argument.toList.head? ≠ some '-'

/--
Take the options of an argument with one hyphen.  The text behind an option
with a value is that value; if there is none, the option is left over.
-/
def cluster (cl : CommandLine) : List Char → Except Stop (CommandLine × Option Switch)
  | [] => .ok (cl, none)
  | letter :: rest =>
      match Switch.ofShort? letter with
      | none => .error .usage
      | some switch =>
          if switch.takesValue then
            match rest with
            | [] => .ok (cl, some switch)
            | '=' :: value => (cl.take (String.ofList value) switch).map (·, none)
            | value => (cl.take (String.ofList value) switch).map (·, none)
          else
            match cl.flag switch with
            | .ok cl => cl.cluster rest
            | .error stop => .error stop

/-- Take the option of an argument with two hyphens; one that waits for its
value is left over. -/
def longOption (cl : CommandLine) (argument : List Char) :
    Except Stop (CommandLine × Option Switch) :=
  match Switch.ofLong? (String.ofList (argument.takeWhile (· ≠ '='))) with
  | none => .error .usage
  | some switch =>
      match argument.dropWhile (· ≠ '=') with
      | [] =>
          if switch.takesValue then .ok (cl, some switch)
          else (cl.flag switch).map (·, none)
      | _ :: value =>
          if switch.takesValue then (cl.take (String.ofList value) switch).map (·, none)
          else .error .usage

def takeFiles (cl : CommandLine) : List String → Except Stop CommandLine
  | [] => .ok cl
  | path :: rest =>
      match cl.takeFile path with
      | .ok cl => cl.takeFiles rest
      | .error stop => .error stop

/-- Take an argument; an option that waits for its value is left over. -/
def argument (cl : CommandLine) (written : String) :
    Except Stop (CommandLine × Option Switch) :=
  match written.toList with
  | '-' :: '-' :: option => cl.longOption option
  | '-' :: letter :: rest => cl.cluster (letter :: rest)
  | _ => (cl.takeFile written).map (·, none)

def arguments (cl : CommandLine) : List String → Except Stop CommandLine
  | [] => .ok cl
  | "--" :: rest => cl.takeFiles rest
  | written :: rest =>
      match cl.argument written with
      | .error stop => .error stop
      | .ok (cl, none) => cl.arguments rest
      | .ok (cl, some switch) =>
          match rest with
          | value :: rest =>
              if mayBeValue value then
                match cl.take value switch with
                | .ok cl => cl.arguments rest
                | .error stop => .error stop
              else .error .usage
          | [] => .error .usage

def read (written : List String) : Except Stop CommandLine :=
  match ({} : CommandLine).arguments written with
  | .ok cl => if cl.quiet && cl.verbose then .error .usage else .ok cl
  | .error stop => .error stop

end CommandLine

end HornLogic
