import HornLogic.Proofs.Session.Counters
import HornLogic.Proofs.Session.Interruption
import HornLogic.Proofs.Session.Question

/-!
# Replies of a session

How a session replies to what it is asked, whatever the form of its output.  Every entry
has one reply, which says whether the entry could be read, and the errors that are
counted are the replies that say no.  Requests of all kinds come to entries, and what is
written of them is the output of the replies.
-/

namespace HornLogic

open Sink (bytesOf)

/-- Whether an entry can be read: the whole of its knowledge, or its query. -/
def ScriptLine.isAccepted : ScriptLine → Bool
  | .blank | .comment => true
  | .query text => (Engine.readQuery text).isOk
  | .knowledge text => (Statement.collect (Clause.readLines text)).isOk

/-! ## Engines behind entries -/

namespace Engine

def enter (engine : Engine) : ScriptLine → Engine
  | .knowledge text => (engine.add text).1
  | _ => engine

/-- The search for every query of some lines ends, behind the lines before it. -/
def Ends (engine : Engine) (lines : List ScriptLine) : Prop :=
  ∀ before text later, lines = before ++ .query text :: later →
    (before.foldl enter engine).ask text ≠ none

variable {engine : Engine}

theorem ends_append (front back : List ScriptLine) (ends : engine.Ends (front ++ back)) :
    engine.Ends front ∧ (front.foldl enter engine).Ends back := by
  constructor
  · rintro before text later rfl
    exact ends before text (later ++ back) (by simp)
  · rintro before text later rfl
    rw [← List.foldl_append]
    exact ends (front ++ before) text later (List.append_assoc ..).symm

theorem ends_cons_iff {line : ScriptLine} {lines : List ScriptLine} :
    engine.Ends (line :: lines) ↔
      (∀ text, line = .query text → engine.ask text ≠ none) ∧
        (engine.enter line).Ends lines := by
  constructor
  · intro ends
    refine ⟨?_, (ends_append [line] lines ends).2⟩
    rintro text rfl
    exact ends [] text lines rfl
  · rintro ⟨here, later⟩ before text rest split
    cases before with
    | nil =>
        cases split
        exact here text rfl
    | cons first before =>
        cases split
        exact later before text rest rfl

end Engine

namespace Session

/-! ## One entry -/

def enter (session : Session) : ScriptLine → Option (Session × Reply)
  | .blank | .comment => some (session, ⟨true, ""⟩)
  | .query text => session.query text
  | .knowledge text => some (session.ingest text)

theorem execute_eq_enter (session : Session) (line : String) :
    session.execute line = session.enter (ScriptLine.classify line) := by
  rw [execute]
  cases ScriptLine.classify line <;> rfl

inductive MayReply (session : Session) : Reply → Prop where
  | silent : MayReply session ⟨true, ""⟩
  | notice : MayReply session ⟨true, noticeText session.interactive⟩
  | answer {text : String} {r : Resolution}
      (asked : session.engine.ask text = some (.ok r)) :
      MayReply session ⟨true, resolutionText session.format session.trace r⟩
  | refusal (fault : Fault) : MayReply session ⟨false, faultText session.format fault⟩

structure Replies (before after : Session) (line : ScriptLine) (reply : Reply) :
    Prop where
  engine : after.engine = before.engine.enter line
  format : after.format = before.format
  accepted : reply.accepted = line.isAccepted
  errors : after.summary.errors =
    before.summary.errors + if reply.accepted then 0 else 1
  shape : before.MayReply reply

theorem ingest_replies (session : Session) (text : String) :
    session.Replies (session.ingest text).1 (.knowledge text)
      (session.ingest text).2 := by
  cases collected : Statement.collect (Clause.readLines text) with
  | ok clauses =>
      rw [ingest_of_ok collected]
      refine ⟨?_, rfl, ?_, rfl, .notice⟩
      · rw [Engine.enter, Engine.add_of_ok collected]
      · rw [ScriptLine.isAccepted, collected]
        rfl
  | error rejection =>
      rw [ingest_of_error collected]
      refine ⟨?_, rfl, ?_, rfl, .refusal _⟩
      · rw [Engine.enter, Engine.add_of_error collected]
        rfl
      · rw [ScriptLine.isAccepted, collected]
        rfl

theorem exists_ask_of_query {session after : Session} {text : String} {reply : Reply}
    (answered : session.query text = some (after, reply)) :
    ∃ outcome, session.engine.ask text = some outcome := by
  obtain ⟨outcome, asked, _⟩ := Option.map_eq_some_iff.mp answered
  exact ⟨outcome, asked⟩

theorem query_replies {session after : Session} {text : String} {reply : Reply}
    (answered : session.query text = some (after, reply)) :
    session.Replies after (.query text) reply := by
  cases isRead : Engine.readQuery text with
  | ok query =>
      obtain ⟨outcome, asked⟩ := exists_ask_of_query answered
      have readable := asked
      rw [Engine.ask, isRead] at readable
      obtain ⟨r, _, rfl⟩ := Option.map_eq_some_iff.mp readable
      rw [query_of_ok asked] at answered
      cases answered
      refine ⟨rfl, rfl, ?_, rfl, .answer asked⟩
      rw [ScriptLine.isAccepted, isRead]
      rfl
  | error fault =>
      have asked : session.engine.ask text = some (.error fault) := by
        rw [Engine.ask, isRead]
      rw [query_of_error asked] at answered
      cases answered
      refine ⟨rfl, rfl, ?_, rfl, .refusal _⟩
      rw [ScriptLine.isAccepted, isRead]
      rfl

theorem enter_replies {session after : Session} {line : ScriptLine} {reply : Reply}
    (entered : session.enter line = some (after, reply)) :
    session.Replies after line reply := by
  cases line with
  | blank =>
      cases entered
      exact ⟨rfl, rfl, rfl, rfl, .silent⟩
  | comment =>
      cases entered
      exact ⟨rfl, rfl, rfl, rfl, .silent⟩
  | query text => exact query_replies entered
  | knowledge text =>
      have replied : session.ingest text = (after, reply) := Option.some.inj entered
      have replies := session.ingest_replies text
      rwa [replied] at replies

/-- An entry is replied to, unless it is a query whose search has no end. -/
theorem exists_enter {session : Session} {line : ScriptLine}
    (ends : ∀ text, line = .query text → session.engine.ask text ≠ none) :
    ∃ after reply, session.enter line = some (after, reply) := by
  cases line with
  | blank => exact ⟨_, _, rfl⟩
  | comment => exact ⟨_, _, rfl⟩
  | knowledge text => exact ⟨_, _, rfl⟩
  | query text =>
      obtain ⟨outcome, asked⟩ := Option.ne_none_iff_exists'.mp (ends text rfl)
      cases outcome with
      | ok r => exact ⟨_, _, query_of_ok asked⟩
      | error fault => exact ⟨_, _, query_of_error asked⟩

/-! ## Entries one after the other -/

/-- Entries that are made one after the other, with the session that they leave and the
replies to them. -/
inductive Answers : Session → List ScriptLine → Session → List Reply → Prop where
  | nil (session : Session) : Answers session [] session []
  | cons {session next after : Session} {line : ScriptLine} {reply : Reply}
      {lines : List ScriptLine} {replies : List Reply}
      (here : session.enter line = some (next, reply))
      (rest : Answers next lines after replies) :
      Answers session (line :: lines) after (reply :: replies)

def outputOf (replies : List Reply) : String :=
  String.join (replies.map Reply.output)

theorem outputOf_cons (reply : Reply) (replies : List Reply) :
    outputOf (reply :: replies) = reply.output ++ outputOf replies := by
  simp [outputOf]

theorem pour_outputOf_nil (sink : Sink) : sink.pour (bytesOf (outputOf [])) = sink :=
  Sink.pour_nil

theorem pour_outputOf_cons (sink : Sink) (reply : Reply) (replies : List Reply) :
    sink.pour (bytesOf (outputOf (reply :: replies))) =
      (sink.pour (bytesOf reply.output)).pour (bytesOf (outputOf replies)) := by
  rw [outputOf_cons, Sink.bytesOf_append, Sink.pour_append]

theorem outputOf_append (first second : List Reply) :
    outputOf (first ++ second) = outputOf first ++ outputOf second := by
  simp [outputOf]

namespace Answers

variable {session after : Session} {lines : List ScriptLine} {replies : List Reply}

/-- The replies say which entries can be read. -/
theorem accepted (answers : session.Answers lines after replies) :
    replies.map Reply.accepted = lines.map ScriptLine.isAccepted := by
  induction answers with
  | nil session => rfl
  | cons here _ ih => rw [List.map_cons, List.map_cons, (enter_replies here).accepted, ih]

/-- As many errors are counted as replies say no. -/
theorem errors (answers : session.Answers lines after replies) :
    after.summary.errors =
      session.summary.errors + replies.countP (fun reply => !reply.accepted) := by
  induction answers with
  | nil session => rfl
  | @cons session next after line reply lines replies here _ ih =>
      rw [ih, (enter_replies here).errors, List.countP_cons]
      cases reply.accepted with
      | true => rfl
      | false => exact Nat.add_right_comm _ _ _

/-- No error is counted exactly if all entries can be read. -/
theorem errors_eq_iff (answers : session.Answers lines after replies) :
    after.summary.errors = session.summary.errors ↔
      ∀ line ∈ lines, line.isAccepted = true := by
  have same : (∀ flag ∈ replies.map Reply.accepted, flag = true) ↔
      ∀ flag ∈ lines.map ScriptLine.isAccepted, flag = true := by
    rw [answers.accepted]
  rw [List.forall_mem_map, List.forall_mem_map] at same
  rw [← same, answers.errors, Nat.add_eq_left, List.countP_eq_zero]
  simp

/-- Lines of a script are played by being entered. -/
theorem plays {texts : List String}
    (answers : session.Answers (texts.map ScriptLine.classify) after replies) :
    session.Plays texts after (bytesOf (outputOf replies)) := by
  induction texts generalizing session replies with
  | nil =>
      cases answers
      exact .nil _
  | cons text texts ih =>
      cases answers with
      | cons here rest =>
          rw [← execute_eq_enter] at here
          rw [outputOf_cons, Sink.bytesOf_append]
          exact .cons here (ih rest)

end Answers

/-- Entries are replied to if the search for every query ends. -/
theorem exists_answers {session : Session} {lines : List ScriptLine}
    (ends : session.engine.Ends lines) :
    ∃ after replies, session.Answers lines after replies := by
  induction lines generalizing session with
  | nil => exact ⟨session, [], .nil session⟩
  | cons line lines ih =>
      obtain ⟨first, others⟩ := Engine.ends_cons_iff.mp ends
      obtain ⟨next, reply, here⟩ := exists_enter first
      rw [← (enter_replies here).engine] at others
      obtain ⟨after, replies, rest⟩ := ih others
      exact ⟨after, reply :: replies, .cons here rest⟩

/-! ## Requests -/

inductive Request where
  | run (input : List UInt8)
  | execute (line : String)
  | ingest (text : String)
  | query (text : String)

/-- The lines with a text in front of the first one without. -/
def readable : List (Option String) → List String
  | some line :: rest => line :: readable rest
  | _ => []

theorem exists_readable (lines : List (Option String)) : ∃ rest,
    lines = (readable lines).map some ++ rest ∧
      (rest = [] ∨ ∃ behind, rest = none :: behind) := by
  induction lines with
  | nil => exact ⟨[], rfl, .inl rfl⟩
  | cons line lines ih =>
      cases line with
      | none => exact ⟨_, rfl, .inr ⟨lines, rfl⟩⟩
      | some line =>
          obtain ⟨rest, split, isEnd⟩ := ih
          exact ⟨rest, congrArg (some line :: ·) split, isEnd⟩

namespace Request

/-- The lines that are executed for a request; a run ends at a line that is not
well-formed. -/
def lines : Request → List ScriptLine
  | run input => (readable (Text.linesOfBytes input)).map ScriptLine.classify
  | execute line => [ScriptLine.classify line]
  | ingest text => [.knowledge text]
  | query text => [.query text]

def into (sink : Sink) : Request → Call
  | run input => .run sink input
  | execute line => .execute sink line
  | ingest text => .ingest sink text
  | query text => .query sink text

end Request

/-- Fulfil requests one after the other, all writing to the same sink; the result is
none if a search has no end. -/
def serve (session : Session) (sink : Sink) : List Request → Option (Session × Sink)
  | [] => some (session, sink)
  | request :: rest => do
      let (after, left) ← session.perform (request.into sink)
      after.serve left rest

variable {session after : Session} {sink : Sink} {replies : List Reply}

/-- A run of bytes executes the lines in front of the first one that is not
well-formed. -/
theorem perform_run {input output : List UInt8}
    (plays : session.Plays (readable (Text.linesOfBytes input)) after output)
    (fits : sink.Holds output) :
    session.perform (.run sink input) = some (after, sink.pour output) := by
  obtain ⟨rest, split, isEnd⟩ := exists_readable (Text.linesOfBytes input)
  rw [perform, split]
  rcases isEnd with rfl | ⟨behind, rfl⟩
  · rw [List.append_nil, plays.run fits]
    rfl
  · rw [plays.run_badEncoding fits]
    rfl

theorem readable_map_some (lines : List String) : readable (lines.map some) = lines := by
  induction lines with
  | nil => rfl
  | cons line lines ih => rw [List.map_cons, readable, ih]

theorem deliver_of_unlimited (unlimited : sink.room = none) (reply : Reply) :
    deliver sink reply = (sink.pour (bytesOf reply.output), .ok reply.accepted) := by
  rw [deliver, Sink.write_of_holds (Sink.holds_of_unlimited unlimited)]
  rfl

/-- A request comes to entries, and the output of the replies is written. -/
theorem Answers.perform {request : Request}
    (answers : session.Answers request.lines after replies)
    (unlimited : sink.room = none) :
    session.perform (request.into sink) =
      some (after, sink.pour (bytesOf (outputOf replies))) := by
  -- what is written for a single entry
  have delivered {line : ScriptLine} (answers : session.Answers [line] after replies) :
      ∃ reply, session.enter line = some (after, reply) ∧
        (deliver sink reply).1 = sink.pour (bytesOf (outputOf replies)) := by
    cases answers with
    | @cons _ _ _ _ reply _ _ here rest =>
        cases rest
        refine ⟨reply, here, ?_⟩
        rw [deliver_of_unlimited unlimited, outputOf_cons]
        simp [outputOf]
  cases request with
  | run input => exact perform_run answers.plays (Sink.holds_of_unlimited unlimited)
  | execute line =>
      obtain ⟨reply, entered, written⟩ := delivered answers
      rw [← execute_eq_enter] at entered
      rw [Request.into, Session.perform, entered]
      exact congrArg (fun left => some (after, left)) written
  | ingest text =>
      obtain ⟨reply, entered, written⟩ := delivered answers
      have ingested : session.ingest text = (after, reply) := Option.some.inj entered
      rw [Request.into, Session.perform, ingested]
      exact congrArg (fun left => some (after, left)) written
  | query text =>
      obtain ⟨reply, entered, written⟩ := delivered answers
      have queried : session.query text = some (after, reply) := entered
      rw [Request.into, Session.perform, queried]
      exact congrArg (fun left => some (after, left)) written

theorem Answers.of_append {lines more : List ScriptLine}
    (answers : session.Answers (lines ++ more) after replies) :
    ∃ next first second, session.Answers lines next first ∧
      next.Answers more after second ∧ replies = first ++ second := by
  induction lines generalizing session replies with
  | nil => exact ⟨session, [], replies, .nil session, answers, rfl⟩
  | cons line lines ih =>
      cases answers with
      | @cons _ _ _ _ reply _ _ here rest =>
          obtain ⟨next, first, second, begun, ended, rfl⟩ := ih rest
          exact ⟨next, reply :: first, second, .cons here begun, ended, rfl⟩

/-- All that is written for requests is the output of the replies. -/
theorem Answers.serve {requests : List Request}
    (answers : session.Answers (requests.flatMap Request.lines) after replies)
    (unlimited : sink.room = none) :
    session.serve sink requests =
      some (after, sink.pour (bytesOf (outputOf replies))) := by
  induction requests generalizing session sink replies with
  | nil =>
      cases answers
      rw [pour_outputOf_nil, Session.serve]
  | cons request requests ih =>
      rw [List.flatMap_cons] at answers
      obtain ⟨next, first, second, here, rest, rfl⟩ := answers.of_append
      rw [Session.serve, here.perform unlimited, outputOf_append, Sink.bytesOf_append,
        ← Sink.pour_append]
      exact ih rest (Sink.room_pour_of_unlimited unlimited)

end Session

end HornLogic
