import HornLogic.CommandLine
import HornLogic.Settings.File
import HornLogic.Settings.Override
import HornLogic.Text.Line

/-!
# The program

One run of the program as a function of its arguments, the environment, the
files and the standard input.  Settings are collected first, then the
knowledge files are loaded, and then the queries of the command line are
answered, or the standard input is run as a script if there are none.  The
status is zero exactly if nothing was rejected.
-/

namespace HornLogic

inductive FileStatus where
  | absent
  /-- Something that is there but cannot be read as a text. -/
  | unreadable
  | text (content : String)
deriving DecidableEq, Inhabited

/-- What a run can see. -/
structure World where
  environment : String → Option String
  file : String → FileStatus
  /-- The bytes of the standard input. -/
  input : List UInt8

/-- What a run leaves behind. -/
structure Outcome where
  status : UInt8
  /-- The bytes written to the standard output. -/
  output : List UInt8 := []
  /-- What there is to say about a failure, apart from the output. -/
  complaint : Option String := none
deriving DecidableEq, Inhabited

namespace Program

def version : String := "hornet 0.1.0\n"

def usage : String :=
  "Usage: hornet [OPTIONS] [FILE]...\n" ++
  "\n" ++
  "Arguments:\n" ++
  "  [FILE]...            Knowledge files, one fact or rule to a line\n" ++
  "\n" ++
  "Options:\n" ++
  "  -e, --query <QUERY>  Query to answer after loading (repeatable)\n" ++
  "      --trace          Print derivations after results\n" ++
  "      --max-depth <N>  Maximum goal depth (0 for unlimited)\n" ++
  "      --single-pass    Prove the goals of a body one by one\n" ++
  "  -f, --format <NAME>  Output format: text or json\n" ++
  "  -c, --config <PATH>  Configuration file\n" ++
  "      --init-config    Print a default configuration file and exit\n" ++
  "  -v, --verbose        Verbose output\n" ++
  "  -q, --quiet          Errors only\n" ++
  "  -h, --help           Print help\n" ++
  "  -V, --version        Print version\n"

def printed (text : String) : Outcome :=
  { status := 0, output := Sink.bytesOf text }

def failed (output : List UInt8) (complaint : String) : Outcome :=
  { status := 1, output := output, complaint := some complaint }

/-- The outcome for arguments that ask for no run. -/
def stopped : CommandLine.Stop → Outcome
  | .usage => { status := 2, complaint := some usage }
  | .help => printed usage
  | .version => printed version

/-! ## Settings -/

def below (directory path : String) : String :=
  directory ++ "/" ++ path

def home? (world : World) : Option String :=
  (world.environment "HOME").filter (· ≠ "")

def configDirectory? (world : World) : Option String :=
  ((world.environment "XDG_CONFIG_HOME").filter fun path =>
    path.toList.head? = some '/').or ((home? world).map (below · ".config"))

/-- Where a settings file is looked for, in order. -/
def settingsPaths (world : World) : List String :=
  ["./hornet.toml"] ++
  ((configDirectory? world).map (below · "hornet/config.toml")).toList ++
  ((home? world).map (below · ".hornet/config.toml")).toList ++
  ["/etc/hornet/config.toml"]

def settingsAt (world : World) (path : String) : Except Settings.Problem Settings :=
  match world.file path with
  | .text content => Settings.readFrom path content
  | .absent => .error (.unreadable path "no such file")
  | .unreadable => .error (.unreadable path "not a text file")

def settingsPath? (world : World) (cl : CommandLine) : Option String :=
  cl.config.or ((settingsPaths world).find? fun path => world.file path ≠ .absent)

def withOptions (cl : CommandLine) (settings : Settings) : Settings where
  general :=
    { format := cl.format.getD settings.general.format
      logLevel :=
        if cl.verbose then .verbose
        else if cl.quiet then .quiet
        else settings.general.logLevel }
  resolution :=
    { maxDepth := cl.maxDepth.getD settings.resolution.maxDepth
      conjunction :=
        if cl.singlePass then .singlePass else settings.resolution.conjunction
      trace := cl.trace || settings.resolution.trace }
  ingest := settings.ingest

/-- The settings of a run: a file, then the environment, then the options. -/
def settings (world : World) (cl : CommandLine) : Except Settings.Problem Settings := do
  let base ← match settingsPath? world cl with
    | some path => settingsAt world path
    | none => .ok {}
  match base.overrideFrom world.environment with
  | (settings, .ok ()) => .ok (withOptions cl settings)
  | (_, .error problem) => .error problem

def session (settings : Settings) : Session where
  engine := { settings := settings.engine }
  format := settings.general.format
  trace := settings.resolution.trace

/-! ## The run -/

/-- Load knowledge files in order, up to one that fails. -/
def load (world : World) (session : Session) (sink : Sink) :
    List String → Except Outcome (Session × Sink)
  | [] => .ok (session, sink)
  | path :: rest =>
      match world.file path with
      | .text content =>
          match session.ingest content with
          | (session, reply) =>
              match Session.deliver sink reply with
              | (sink, .ok true) => load world session sink rest
              | (sink, .ok false) =>
                  .error (failed sink.written ("Failed to load knowledge from " ++ path))
              | (sink, .error fault) => .error (failed sink.written fault.message)
      | _ => .error (failed sink.written ("Failed to read file: " ++ path))

/-- Answer queries in order; the result is none if a search has no end. -/
def answerAll (session : Session) (sink : Sink) :
    List String → Option (Session × Sink × Except Fault Unit)
  | [] => some (session, sink, .ok ())
  | text :: rest => do
      let (session, reply) ← session.query text
      match Session.deliver sink reply with
      | (sink, .ok _) => answerAll session sink rest
      | (sink, .error fault) => some (session, sink, .error fault)

def finished (sink : Sink) : Except Fault Summary → Outcome
  | .ok summary =>
      { status := if summary.errors = 0 then 0 else 1, output := sink.written }
  | .error fault => failed sink.written fault.message

/-- Answer the queries of the command line, or run the standard input. -/
def work (world : World) (cl : CommandLine) (session : Session) (sink : Sink) :
    Option Outcome :=
  match cl.queries with
  | [] => do
      let (_, sink, result) ← session.run sink (Text.linesOfBytes world.input)
      some (finished sink result)
  | queries => do
      let (session, sink, result) ← answerAll session sink queries
      some (finished sink (result.map fun () => session.summary))

def execute (world : World) (cl : CommandLine) : Option Outcome :=
  if cl.initConfig then
    some (printed Settings.template)
  else
    match settings world cl with
    | .error problem => some (failed [] problem.message)
    | .ok settings =>
        match load world (session settings) {} cl.files with
        | .error outcome => some outcome
        | .ok (session, sink) => work world cl session sink

/-- One run of the program; none if a search has no end. -/
def run (world : World) (arguments : List String) : Option Outcome :=
  match CommandLine.read arguments with
  | .error stop => some (stopped stop)
  | .ok cl => execute world cl

/-- The paths at which a run may look. -/
def pathsOf (world : World) (cl : CommandLine) : List String :=
  cl.config.toList ++ settingsPaths world ++ cl.files

end Program

end HornLogic
