import HornLogic.Program
import HornLogic.Proofs.Session.Marks

/-!
# Runs of the program

What a run of the program comes to, if its settings and its files can be read.  A run
makes a list of requests to one session: one for every knowledge file up to the first
that is rejected, and behind accepted files the queries of the command line or the
standard input.  The output is what the session writes for these requests, and the
status tells whether it has reported a fault.
-/

namespace HornLogic

open Session (Request outputOf pour_outputOf_nil pour_outputOf_cons)
open Sink (bytesOf)

namespace Program

/-! ## Requests of a run -/

def tasks (cl : CommandLine) (input : List UInt8) : List Request :=
  match cl.queries with
  | [] => [.run input]
  | queries => queries.map .query

/-- Whether the whole of a file can be read. -/
def loads (content : String) : Bool :=
  (ScriptLine.knowledge content).isAccepted

/-- Every session accepts the same files. -/
theorem accepted_ingest (session : Session) (content : String) :
    (session.ingest content).2.accepted = loads content :=
  (session.ingest_replies content).accepted

/-- The requests for files with these contents and the jobs behind them.  Nothing is
requested behind a file that is rejected. -/
def requests (jobs : List Request) : List String → List Request
  | [] => jobs
  | content :: rest =>
      .ingest content :: if loads content then requests jobs rest else []

variable {jobs : List Request} {contents front back : List String} {content : String}

theorem requests_of_loads (accepted : ∀ content ∈ contents, loads content = true) :
    requests jobs contents = contents.map .ingest ++ jobs := by
  induction contents with
  | nil => rfl
  | cons content rest ih =>
      obtain ⟨first, others⟩ := List.forall_mem_cons.mp accepted
      rw [requests, if_pos first, ih others]
      rfl

/-- The last request is the one for the first file that is rejected. -/
theorem requests_of_rejected (accepted : ∀ content ∈ front, loads content = true)
    (rejected : loads content = false) :
    requests jobs (front ++ content :: back) = (front ++ [content]).map .ingest := by
  induction front with
  | nil =>
      rw [List.nil_append, requests, rejected]
      rfl
  | cons first front ih =>
      obtain ⟨here, others⟩ := List.forall_mem_cons.mp accepted
      rw [List.cons_append, requests, if_pos here, ih others]
      rfl

/-- What is left out behind a rejected file does not count. -/
theorem forall_lines_requests_iff :
    (∀ line ∈ (requests jobs contents).flatMap Request.lines, line.isAccepted = true) ↔
      (∀ content ∈ contents, loads content = true) ∧
        ∀ line ∈ jobs.flatMap Request.lines, line.isAccepted = true := by
  induction contents with
  | nil => simp [requests]
  | cons content rest ih =>
      have ingested : (Request.ingest content).lines = [.knowledge content] := rfl
      rw [requests, List.flatMap_cons, ingested, List.singleton_append,
        List.forall_mem_cons, List.forall_mem_cons, ← loads, and_assoc]
      refine and_congr_right fun accepted => ?_
      rw [if_pos accepted, ih]

/-! ## The course of a run -/

def proceed (world : World) (cl : CommandLine) (session : Session) (sink : Sink)
    (files : List String) : Option Outcome :=
  match load world session sink files with
  | .error outcome => some outcome
  | .ok (session, sink) => work world cl session sink

theorem execute_eq_proceed {world : World} {cl : CommandLine} {settings : Settings}
    (asked : cl.initConfig = false) (configured : Program.settings world cl = .ok settings) :
    execute world cl = proceed world cl (session settings) {} cl.files := by
  rw [execute, asked, configured]
  rfl

section Course

variable {world : World} {cl : CommandLine} {session next after : Session} {sink : Sink}
  {path : String} {files : List String} {reply : Reply} {replies : List Reply}

theorem proceed_cons_of_accepted (isFile : world.file path = .text content)
    (ingested : session.ingest content = (next, reply)) (accepted : reply.accepted = true)
    (unlimited : sink.room = none) :
    proceed world cl session sink (path :: files) =
      proceed world cl next (sink.pour (bytesOf reply.output)) files := by
  simp only [proceed, load, isFile, ingested, Session.deliver_of_unlimited unlimited,
    accepted]

theorem proceed_cons_of_rejected (isFile : world.file path = .text content)
    (ingested : session.ingest content = (next, reply))
    (rejected : reply.accepted = false) (unlimited : sink.room = none) :
    proceed world cl session sink (path :: files) =
      some (failed (sink.pour (bytesOf reply.output)).written
        ("Failed to load knowledge from " ++ path)) := by
  simp only [proceed, load, isFile, ingested, Session.deliver_of_unlimited unlimited,
    rejected]

theorem answerAll_answers {queries : List String}
    (answers : session.Answers (queries.map ScriptLine.query) after replies)
    (unlimited : sink.room = none) :
    answerAll session sink queries =
      some (after, sink.pour (bytesOf (outputOf replies)), .ok ()) := by
  induction queries generalizing session sink replies with
  | nil =>
      cases answers
      rw [pour_outputOf_nil, answerAll]
  | cons text queries ih =>
      cases answers with
      | @cons _ next _ _ reply _ later here rest =>
          have answered : session.query text = some (next, reply) := here
          rw [answerAll, answered, pour_outputOf_cons]
          simp only [Option.bind_eq_bind, Option.bind_some,
            Session.deliver_of_unlimited unlimited]
          exact ih rest (Sink.room_pour_of_unlimited unlimited)

def statusOf (after : Session) : UInt8 :=
  if after.summary.errors = 0 then 0 else 1

theorem statusOf_eq_zero_or_one (after : Session) :
    statusOf after = 0 ∨ statusOf after = 1 :=
  ite_eq_or_eq _ _ _

theorem statusOf_eq_zero_iff {after : Session} :
    statusOf after = 0 ↔ after.summary.errors = 0 := by
  rw [statusOf]
  split
  next none => exact iff_of_true rfl none
  next some => exact iff_of_false (by decide) some

/-- The work of a run is done on the session that the files leave. -/
theorem work_answers {script : String}
    (encoded : cl.queries = [] → world.input = bytesOf script)
    (unlimited : sink.room = none) (clean : session.summary.errors = 0)
    (answers : session.Answers ((tasks cl world.input).flatMap Request.lines)
      after replies) :
    work world cl session sink =
      some { status := statusOf after
             output := (sink.pour (bytesOf (outputOf replies))).written } := by
  cases asked : cl.queries with
  | nil =>
      have lines : Text.linesOfBytes world.input = (Text.linesOf script).map some := by
        rw [encoded asked, Text.linesOfBytes_bytesOf]
      have entries : (tasks cl world.input).flatMap Request.lines =
          (Text.linesOf script).map ScriptLine.classify := by
        rw [tasks, asked, List.flatMap_singleton, Request.lines, lines,
          Session.readable_map_some]
      rw [entries] at answers
      have errors : (after.summary.since session.summary).errors =
          after.summary.errors := by
        rw [Summary.since, clean, Nat.sub_zero]
      rw [work, asked, lines,
        answers.plays.run (Sink.holds_of_unlimited unlimited)]
      simp only [Option.bind_eq_bind, Option.bind_some, finished, errors, statusOf]
  | cons text texts =>
      have entries : (tasks cl world.input).flatMap Request.lines =
          cl.queries.map ScriptLine.query := by
        have queried : tasks cl world.input = cl.queries.map .query := by
          rw [tasks, asked]
        rw [queried, List.flatMap_map, List.map_eq_flatMap]
        rfl
      rw [entries, asked] at answers
      rw [work, asked]
      simp only [answerAll_answers answers unlimited, Option.bind_eq_bind,
        Option.bind_some, Except.map, finished, statusOf]

/-- A run writes what its session replies, and its status is that of the session. -/
theorem exists_proceed {script : String}
    (found : files.map world.file = contents.map FileStatus.text)
    (encoded : cl.queries = [] → world.input = bytesOf script)
    (unlimited : sink.room = none) (clean : session.summary.errors = 0)
    (answers : session.Answers
      ((requests (tasks cl world.input) contents).flatMap Request.lines) after replies) :
    ∃ outcome, proceed world cl session sink files = some outcome ∧
      outcome.status = statusOf after ∧
      outcome.output = (sink.pour (bytesOf (outputOf replies))).written := by
  induction contents generalizing files session sink replies with
  | nil =>
      rw [List.map_nil, List.map_eq_nil_iff] at found
      rw [found, proceed, load]
      exact ⟨_, work_answers encoded unlimited clean answers, rfl, rfl⟩
  | cons content contents ih =>
      obtain ⟨path, paths, rfl, isFile, found⟩ := List.map_eq_cons_iff.mp found
      rw [requests, List.flatMap_cons] at answers
      cases answers with
      | @cons _ next _ _ reply _ later here rest =>
          have ingested : session.ingest content = (next, reply) := Option.some.inj here
          have flag : reply.accepted = loads content := (Session.enter_replies here).accepted
          have counted := (Session.enter_replies here).errors
          rw [clean, Nat.zero_add] at counted
          rw [pour_outputOf_cons]
          cases accepted : loads content with
          | true =>
              rw [accepted] at flag rest
              rw [flag] at counted
              rw [proceed_cons_of_accepted isFile ingested flag unlimited]
              exact ih found (Sink.room_pour_of_unlimited unlimited) counted rest
          | false =>
              -- nothing is requested behind the file
              rw [accepted] at flag rest
              rw [flag] at counted
              cases rest
              rw [proceed_cons_of_rejected isFile ingested flag unlimited,
                pour_outputOf_nil]
              refine ⟨_, rfl, ?_, rfl⟩
              rw [statusOf, counted]
              rfl

/-- Behind a rejected file, neither a query nor the standard input is looked at. -/
theorem proceed_of_rejected (found : files.map world.file = contents.map FileStatus.text)
    (unlimited : sink.room = none)
    (rejected : ∃ content ∈ contents, loads content = false)
    (queries : List String) (input : List UInt8) :
    proceed { world with input := input } { cl with queries := queries } session sink
        files =
      proceed world cl session sink files := by
  induction contents generalizing files session sink with
  | nil =>
      obtain ⟨_, member, _⟩ := rejected
      cases member
  | cons content contents ih =>
      obtain ⟨path, paths, rfl, isFile, found⟩ := List.map_eq_cons_iff.mp found
      have same : { world with input := input }.file path = .text content := isFile
      cases ingested : session.ingest content with
      | mk next reply =>
          have flag := accepted_ingest session content
          rw [ingested] at flag
          cases accepted : loads content with
          | true =>
              rw [accepted] at flag
              rw [proceed_cons_of_accepted isFile ingested flag unlimited,
                proceed_cons_of_accepted same ingested flag unlimited]
              obtain ⟨bad, member, refused⟩ := rejected
              rcases List.mem_cons.mp member with rfl | later
              · rw [accepted] at refused
                cases refused
              · exact ih found (Sink.room_pour_of_unlimited unlimited) ⟨bad, later, refused⟩
          | false =>
              rw [accepted] at flag
              rw [proceed_cons_of_rejected isFile ingested flag unlimited,
                proceed_cons_of_rejected same ingested flag unlimited]

end Course

end Program

namespace Example

open Program (tasks requests)

def study : World where
  environment _ := none
  file path := if path = "kin" then .text "p(a).\np(b).\n" else .absent
  input := []

/-- What is asked for in this world: records of two queries, the second of which cannot
be read. -/
def inquiry : CommandLine where
  files := ["kin"]
  queries := ["p(X).", "p("]
  format := some .json

theorem read_inquiry :
    CommandLine.read ["-fjson", "kin", "--query", "p(X).", "-e", "p("] = .ok inquiry := by
  decide +kernel

theorem settings_inquiry : Program.settings study inquiry =
    .ok { general := { format := .json } } := by
  decide +kernel

theorem lines_inquiry :
    (requests (tasks inquiry study.input) ["p(a).\np(b).\n"]).flatMap Request.lines =
      [.knowledge "p(a).\np(b).\n", .query "p(X).", .query "p("] := by
  decide +kernel

theorem ends_inquiry : (Program.session { general := { format := .json } }).engine.Ends
    ((requests (tasks inquiry study.input) ["p(a).\np(b).\n"]).flatMap Request.lines) := by
  have plain : (Program.session { general := { format := .json } }).engine = {} := rfl
  have first : ((({} : Engine).enter (.knowledge "p(a).\np(b).\n")).ask
      "p(X).").isSome = true := by decide +kernel
  have second : ((({} : Engine).enter (.knowledge "p(a).\np(b).\n")).ask
      "p(").isSome = true := by decide +kernel
  rw [lines_inquiry, plain]
  simp only [Engine.ends_cons_iff]
  refine ⟨nofun, ?_, ?_, ?_⟩
  · rintro text ⟨⟩
    exact Option.isSome_iff_ne_none.mp first
  · rintro text ⟨⟩
    exact Option.isSome_iff_ne_none.mp second
  · intro before text later split
    simp at split

end Example

namespace Program

open Example (study inquiry read_inquiry settings_inquiry ends_inquiry)

/--
A run whose settings and files can be read comes to an end if the search for every query
that it reaches does.  It writes what one session writes for the contents of the files
and behind them the queries of the command line, or the standard input if there are none.
The status is zero exactly if all of them are accepted, and exactly if no line of the
output reports a fault.  The output ends with the report of the first file that is
rejected, and neither queries nor the standard input make a difference behind it.
-/
theorem run_reports {world : World} {arguments : List String} {cl : CommandLine}
    {settings : Settings} {contents : List String} {script : String}
    (read : CommandLine.read arguments = .ok cl) (asked : cl.initConfig = false)
    (configured : Program.settings world cl = .ok settings)
    (found : cl.files.map world.file = contents.map FileStatus.text)
    (encoded : cl.queries = [] → world.input = bytesOf script)
    (ends : (session settings).engine.Ends
      ((requests (tasks cl world.input) contents).flatMap Request.lines)) :
    ∃ outcome after left,
      run world arguments = some outcome ∧
      outcome.output = left.written ∧
      (outcome.status = 0 ∨ outcome.status = 1) ∧
      (outcome.status = 0 ↔
        (∀ content ∈ contents, loads content = true) ∧
          ∀ line ∈ (tasks cl world.input).flatMap Request.lines,
            line.isAccepted = true) ∧
      (outcome.status = 0 ↔
        ∀ line, some line ∈ Text.linesOfBytes outcome.output →
          Session.reportsFault settings.general.format line = false) ∧
      ((∀ content ∈ contents, loads content = true) →
        (session settings).serve {} (contents.map .ingest ++ tasks cl world.input) =
          some (after, left)) ∧
      ∀ front content back, contents = front ++ content :: back →
        (∀ earlier ∈ front, loads earlier = true) → loads content = false →
        (session settings).serve {} ((front ++ [content]).map .ingest) =
            some (after, left) ∧
          ∀ queries input,
            execute { world with input := input } { cl with queries := queries } =
              some outcome := by
  obtain ⟨after, replies, answers⟩ := Session.exists_answers ends
  have clean : (session settings).summary.errors = 0 := rfl
  have unlimited : ({} : Sink).room = none := rfl
  have served := answers.serve unlimited
  obtain ⟨outcome, proceeds, status, output⟩ :=
    exists_proceed found encoded unlimited clean answers
  have accepted : outcome.status = 0 ↔
      ∀ line ∈ (requests (tasks cl world.input) contents).flatMap Request.lines,
        line.isAccepted = true := by
    rw [status, statusOf_eq_zero_iff, ← answers.errors_eq_iff, clean]
  have written : outcome.output = bytesOf (outputOf replies) := output
  have grown : (session settings).engine.Grown settings.engine := .fresh
  have unmarked := not_congr (answers.exists_reportsFault_iff grown)
  simp only [not_exists, not_and, Bool.not_eq_true, Bool.not_eq_false] at unmarked
  refine ⟨outcome, after, _, ?_, output, ?_, ?_, ?_, fun accepted => ?_, ?_⟩
  · rw [run, read]
    exact (execute_eq_proceed asked configured).trans proceeds
  · rw [status]
    exact statusOf_eq_zero_or_one after
  · rw [accepted, forall_lines_requests_iff]
  · rw [accepted, written, Text.linesOfBytes_bytesOf, ← unmarked]
    simp only [List.mem_map, Option.some.injEq, exists_eq_right]
    rfl
  · rwa [requests_of_loads accepted] at served
  · rintro front content back rfl accepted rejected
    rw [requests_of_rejected accepted rejected] at served
    refine ⟨served, fun queries input => ?_⟩
    have member : content ∈ front ++ content :: back :=
      List.mem_append_right _ List.mem_cons_self
    calc execute { world with input := input } { cl with queries := queries }
      _ = proceed { world with input := input } { cl with queries := queries }
            (session settings) {} cl.files := execute_eq_proceed asked configured
      _ = proceed world cl (session settings) {} cl.files :=
            proceed_of_rejected found unlimited ⟨content, member, rejected⟩ queries input
      _ = some outcome := proceeds

/-- The status tells that the second query cannot be read, and one line reports it. -/
theorem run_reports_inquiry :
    CommandLine.read ["-fjson", "kin", "--query", "p(X).", "-e", "p("] = .ok inquiry ∧
    inquiry.initConfig = false ∧
    Program.settings study inquiry = .ok { general := { format := .json } } ∧
    inquiry.files.map study.file = ["p(a).\np(b).\n"].map FileStatus.text ∧
    (inquiry.queries = [] → study.input = bytesOf "") ∧
    (session { general := { format := .json } }).engine.Ends
      ((requests (tasks inquiry study.input) ["p(a).\np(b).\n"]).flatMap Request.lines) ∧
    ∃ outcome,
      run study ["-fjson", "kin", "--query", "p(X).", "-e", "p("] = some outcome ∧
      outcome.status = 1 ∧
      ∃ line, some line ∈ Text.linesOfBytes outcome.output ∧
        Session.reportsFault .json line = true := by
  have found : inquiry.files.map study.file =
      ["p(a).\np(b).\n"].map FileStatus.text := by decide +kernel
  have encoded : inquiry.queries = [] → study.input = bytesOf "" := nofun
  obtain ⟨outcome, after, left, ran, -, binary, accepted, unmarked, -⟩ :=
    run_reports read_inquiry rfl settings_inquiry found encoded ends_inquiry
  have refused : outcome.status ≠ 0 := by
    rw [Ne, accepted]
    rintro ⟨-, readable⟩
    exact absurd (readable (.query "p(") (by decide +kernel)) (by decide +kernel)
  have reported := mt unmarked.mpr refused
  simp only [not_forall, Bool.not_eq_false, exists_prop] at reported
  exact ⟨read_inquiry, rfl, settings_inquiry, found, encoded, ends_inquiry, outcome, ran,
    binary.resolve_left refused, reported⟩

end Program

end HornLogic
