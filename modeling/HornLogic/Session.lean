import HornLogic.Engine
import HornLogic.Fault.Record
import HornLogic.Session.Line
import HornLogic.Session.Sink

/-!
# Sessions

A session feeds an engine line by line, counts what happens and reports the
outcome of every entry as text or as JSON lines.  An entry that cannot be
read is reported and does not end a session; only a failure of input or
output does.  What an entry changes is changed before anything is written.
-/

namespace HornLogic

inductive OutputFormat where
  | text
  | json
deriving DecidableEq, Inhabited

structure Summary where
  /-- Clauses that were added. -/
  statements : Nat := 0
  /-- Queries that were asked. -/
  queries : Nat := 0
  /-- Solutions of all queries. -/
  solutions : Nat := 0
  /-- Entries that were rejected. -/
  errors : Nat := 0
deriving DecidableEq, Inhabited

namespace Summary

/-- What happened since an earlier moment. -/
def since (now before : Summary) : Summary where
  statements := now.statements - before.statements
  queries := now.queries - before.queries
  solutions := now.solutions - before.solutions
  errors := now.errors - before.errors

end Summary

structure Session where
  engine : Engine := {}
  format : OutputFormat := .text
  trace : Bool := false
  interactive : Bool := false
  summary : Summary := {}
deriving DecidableEq, Inhabited

/-- What a session has to say about one entry. -/
structure Reply where
  accepted : Bool
  output : String
deriving DecidableEq, Inhabited

namespace Session

def faultText (format : OutputFormat) (fault : Fault) : String :=
  match format with
  | .text => "Error: " ++ fault.message ++ "\n"
  | .json => fault.record.render ++ "\n"

def resolutionText (format : OutputFormat) (trace : Bool) (r : Resolution) : String :=
  match format with
  | .text => r.report trace
  | .json => r.json.render ++ "\n"

/-- The notice of accepted knowledge, for interactive sessions only. -/
def noticeText (interactive : Bool) : String :=
  if interactive then "Knowledge added successfully!\n" else ""

/-- Count a fault and report it. -/
def reject (session : Session) (fault : Fault) : Session × Reply :=
  let summary := session.summary
  ({ session with summary := { summary with errors := summary.errors + 1 } },
    ⟨false, faultText session.format fault⟩)

def ingest (session : Session) (text : String) : Session × Reply :=
  let (engine, result) := session.engine.add text
  let session := { session with engine := engine }
  match result with
  | .ok added =>
      let summary := session.summary
      ({ session with summary :=
          { summary with statements := summary.statements + added } },
        ⟨true, noticeText session.interactive⟩)
  | .error fault => session.reject fault

/-- Answer a query; the result is none if its search has no end. -/
def query (session : Session) (text : String) : Option (Session × Reply) :=
  let summary := session.summary
  let asked : Session :=
    { session with summary := { summary with queries := summary.queries + 1 } }
  (asked.engine.ask text).map fun
    | .error fault => asked.reject fault
    | .ok r =>
        let summary := asked.summary
        ({ asked with summary :=
            { summary with solutions := summary.solutions + r.solutions.length } },
          ⟨true, resolutionText asked.format asked.trace r⟩)

def execute (session : Session) (line : String) : Option (Session × Reply) :=
  match ScriptLine.classify line with
  | .blank | .comment => some (session, ⟨true, ""⟩)
  | .query text => session.query text
  | .knowledge text => some (session.ingest text)

def badEncoding : Fault :=
  .io "stream did not contain valid UTF-8"

/--
Execute the lines of a script, writing to a sink.  A line without a text, or
a sink that has no room left, ends the run; no later line is executed.
-/
def executeAll (session : Session) (sink : Sink) :
    List (Option String) → Option (Session × Sink × Except Fault Unit)
  | [] => some (session, sink, .ok ())
  | none :: _ => some (session, sink, .error badEncoding)
  | some line :: rest => do
      let (session, reply) ← session.execute line
      match sink.write reply.output with
      | (sink, .ok ()) => session.executeAll sink rest
      | (sink, .error fault) => some (session, sink, .error fault)

/-- Run a script and sum up what happened in this run. -/
def run (session : Session) (sink : Sink) (lines : List (Option String)) :
    Option (Session × Sink × Except Fault Summary) := do
  let (after, sink, result) ← session.executeAll sink lines
  return (after, sink, result.map fun () => after.summary.since session.summary)

/-- Write a reply and tell whether the entry was accepted. -/
def deliver (sink : Sink) (reply : Reply) : Sink × Except Fault Bool :=
  let (sink, result) := sink.write reply.output
  (sink, result.map fun () => reply.accepted)

end Session

end HornLogic
