import HornLogic.Program

/-!
# The command line program

Gathers what a run can see, and puts what it leaves behind where it belongs.
At a terminal the standard input is run line by line instead.
-/

namespace HornLogic.Terminal

def fileStatus (path : String) : IO FileStatus := do
  try
    return .text (← IO.FS.readFile ⟨path⟩)
  catch
    | .noFileOrDirectory .. => return .absent
    | _ => return .unreadable

/-- The variables that a run may ask for. -/
def variableNames : List String :=
  ["HOME", "XDG_CONFIG_HOME"] ++ Settings.Override.all.map Settings.Override.key

def writeBytes (bytes : List UInt8) : IO Unit := do
  let out ← IO.getStdout
  out.write ⟨bytes.toArray⟩
  out.flush

/-- Print what a run leaves behind and pass on its status. -/
def conclude (outcome : Option Outcome) : IO UInt32 := do
  match outcome with
  | none => return 1
  | some outcome =>
      writeBytes outcome.output
      if let some complaint := outcome.complaint then
        IO.eprintln complaint
      return outcome.status.toUInt32

partial def readAll (stream : IO.FS.Stream) (before : ByteArray) : IO ByteArray := do
  let chunk ← stream.read 65536
  if chunk.isEmpty then
    return before
  readAll stream (before ++ chunk)

/-- Run lines as they are typed. -/
partial def converse (session : Session) : IO UInt32 := do
  let line ← (← IO.getStdin).getLine
  if line.isEmpty then
    return 0
  match session.run {} [some ((Text.linesOf line).headD "")] with
  | none => return 1
  | some (session, sink, _) =>
      writeBytes sink.written
      converse session

def start (arguments : List String) : IO UInt32 := do
  let given ← variableNames.filterMapM fun name => do
    return (← IO.getEnv name).map fun value => (name, value)
  let world : World :=
    { environment := fun name => given.lookup name
      file := fun _ => .absent
      input := [] }
  match CommandLine.read arguments with
  | .error stop => conclude (some (Program.stopped stop))
  | .ok cl =>
      let files ← (Program.pathsOf world cl).mapM fun path => do
        return (path, ← fileStatus path)
      let world := { world with file := fun path => (files.lookup path).getD .absent }
      if cl.queries.isEmpty && !cl.initConfig then
        let stdin ← IO.getStdin
        if ← stdin.isTty then
          match Program.settings world cl with
          | .error problem => conclude (some (Program.failed [] problem.message))
          | .ok settings =>
              match Program.load world (Program.session settings) {} cl.files with
              | .error outcome => conclude (some outcome)
              | .ok (session, sink) => do
                  writeBytes sink.written
                  converse { session with interactive := true }
        else
          let input ← readAll stdin .empty
          conclude (Program.execute { world with input := input.data.toList } cl)
      else
        conclude (Program.execute world cl)

end HornLogic.Terminal

def main (arguments : List String) : IO UInt32 :=
  HornLogic.Terminal.start arguments
