import HornLogic.Proofs.Fault.Record
import HornLogic.Proofs.Resolution
import HornLogic.Proofs.Session.Replies

/-!
# Records of a session

What a session writes in JSON to one sink, whatever it is asked to do.  Every query and
every rejected text puts one record on a line of its own, and accepted texts put a
notice on one if the session is interactive.  Each record is read back as the resolution
or the fault that it was written for, in whatever order the details of a fault stand.  A
record of a fault is told apart by its beginning, and there are as many of them as errors
are counted.
-/

namespace HornLogic

/-! ## Lines of output -/

/-- A line that a session writes in JSON. -/
inductive OutputLine where
  /-- The record of an answered query. -/
  | answer (r : Resolution)
  /-- The record of a query or a text that is rejected. -/
  | refusal (fault : Fault)
  /-- The notice of accepted knowledge. -/
  | notice

namespace OutputLine

def text : OutputLine → String
  | answer r => r.json.render
  | refusal fault => fault.record.render
  | notice => "Knowledge added successfully!"

def faultMark : String :=
  "\x7b\"error\":true"

def isMarked (text : String) : Bool :=
  faultMark.toList.isPrefixOf text.toList

def page (lines : List OutputLine) : String :=
  String.join (lines.map fun line => line.text ++ "\n")

/-- The texts that may stand on a line: the details of a record have no order. -/
inductive Spells : OutputLine → String → Prop where
  | answer (r : Resolution) : Spells (.answer r) r.json.render
  | refusal (fault : Fault) {entries : List (String × String)}
      (perm : entries.Perm fault.fields.entries) :
      Spells (.refusal fault) (fault.record.jsonIn entries).render
  | notice : Spells .notice "Knowledge added successfully!"

/-- What is read of the text on a line. -/
def Tells : OutputLine → String → Prop
  | answer r, written => Resolution.Record.read? written = some r.record
  | refusal fault, written =>
      Fault.Record.read? written = some fault.record ∧
        (Json.read? written).bind Json.names? =
          some (Json.present [("error", true), ("code", true), ("code_num", true),
            ("message", true), ("details", !fault.fields.isEmpty),
            ("hint", fault.hint.isSome)])
  | notice, written => written = "Knowledge added successfully!"

@[simp] def isRefusal : OutputLine → Bool
  | refusal _ => true
  | _ => false

theorem spells_text (line : OutputLine) : line.Spells line.text := by
  cases line with
  | answer r => exact .answer r
  | refusal fault =>
      rw [text, fault.render_record]
      exact .refusal fault (.refl _)
  | notice => exact .notice

section Spellings

variable {line : OutputLine} {written : String}

theorem Spells.flat (spells : line.Spells written) : Json.Flat written.toList := by
  cases spells with
  | answer r =>
      rw [Json.render, String.toList_ofList]
      exact r.made_json.flat
  | refusal fault =>
      rw [Json.render, String.toList_ofList]
      exact Fault.Record.made_jsonIn.flat
  | notice => simp [Json.Flat]

theorem Spells.tells (spells : line.Spells written) : line.Tells written := by
  cases spells with
  | answer r => exact r.read?_record
  | refusal fault perm =>
      refine ⟨fault.read?_recordIn perm, ?_⟩
      rw [fault.read?_render_record, Option.bind_some, fault.names?_record]
  | notice => rfl

/-- A record of a fault is told apart by its beginning. -/
theorem Spells.isMarked (spells : line.Spells written) :
    isMarked written = line.isRefusal := by
  cases spells with
  | answer r =>
      obtain ⟨behind, whole⟩ := Json.prefix_ofMembers "query" r.query.json
        [("solutions", .array (r.solutions.map Predicate.json)),
          ("derivations", .array (r.derivations.map Derivation.json)),
          ("stats", r.stats.json)]
      rw [OutputLine.isMarked, Json.render, String.toList_ofList, Resolution.json, ← whole]
      rfl
  | refusal fault =>
      rw [OutputLine.isMarked, Json.render, String.toList_ofList]
      exact List.isPrefixOf_iff_prefix.mpr (Json.prefix_ofMembers "error" (.bool true) _)
  | notice => decide

end Spellings

@[simp] theorem isMarked_text (line : OutputLine) : isMarked line.text = line.isRefusal :=
  line.spells_text.isMarked

theorem page_append (first second : List OutputLine) :
    page (first ++ second) = page first ++ page second := by
  simp [page]

theorem spells_map_text (lines : List OutputLine) :
    List.Forall₂ Spells lines (lines.map text) := by
  rw [List.forall₂_map_right_iff]
  exact List.forall₂_same.mpr fun line _ => line.spells_text

section Pages

variable {lines : List OutputLine} {texts : List String}

theorem Spells.forall_mem {p : String → Prop} (spells : List.Forall₂ Spells lines texts)
    (each : ∀ line written, Spells line written → p written) :
    ∀ written ∈ texts, p written := by
  induction spells with
  | nil => exact List.forall_mem_nil _
  | cons here _ ih => exact List.forall_mem_cons.mpr ⟨each _ _ here, ih⟩

/-- A page is cut into the lines that were put on it. -/
theorem linesOf_join (spells : List.Forall₂ Spells lines texts) :
    Text.linesOf (String.join (texts.map (· ++ "\n"))) = texts :=
  Text.linesOf_page (Spells.forall_mem spells fun _ _ spells =>
    ⟨spells.flat.not_mem (by decide), spells.flat.not_mem (by decide)⟩)

theorem countP_isMarked (spells : List.Forall₂ Spells lines texts) :
    texts.countP isMarked = lines.countP isRefusal := by
  induction spells with
  | nil => rfl
  | cons here _ ih => rw [List.countP_cons, List.countP_cons, ih, here.isMarked]

end Pages

theorem linesOf_page (lines : List OutputLine) :
    Text.linesOf (page lines) = lines.map text := by
  have whole : page lines = String.join ((lines.map text).map (· ++ "\n")) := by
    rw [page, List.map_map]
    rfl
  rw [whole, linesOf_join (spells_map_text lines)]

end OutputLine

/-! ## What an engine has to say -/

namespace Engine

/-- What is written of a line in JSON; none if the search for its answers has no end. -/
def linesFor (engine : Engine) (interactive : Bool) :
    ScriptLine → Option (List OutputLine)
  | .blank | .comment => some []
  | .query text =>
      (engine.ask text).map fun
        | .ok r => [.answer r]
        | .error fault => [.refusal fault]
  | .knowledge text =>
      match (engine.add text).2 with
      | .ok _ => some (if interactive then [.notice] else [])
      | .error fault => some [.refusal fault]

/-- What is written of lines, each of them behind the lines before it. -/
def transcript (engine : Engine) (interactive : Bool) :
    List ScriptLine → Option (List OutputLine)
  | [] => some []
  | line :: rest => do
      let here ← engine.linesFor interactive line
      let later ← (engine.enter line).transcript interactive rest
      return here ++ later

variable {engine : Engine} {interactive : Bool}

theorem transcript_append {front back : List ScriptLine} {first second : List OutputLine}
    (begun : engine.transcript interactive front = some first)
    (ended : (front.foldl enter engine).transcript interactive back = some second) :
    engine.transcript interactive (front ++ back) = some (first ++ second) := by
  induction front generalizing engine first with
  | nil =>
      cases begun
      exact ended
  | cons line front ih =>
      obtain ⟨here, isHere, rest⟩ := Option.bind_eq_some_iff.mp begun
      obtain ⟨later, isLater, same⟩ := Option.bind_eq_some_iff.mp rest
      cases same
      rw [List.cons_append, transcript, isHere, Option.bind_eq_bind, Option.bind_some,
        ih isLater ended, List.append_assoc]
      rfl

end Engine

namespace Session

open OutputLine (page isMarked)
open Sink (bytesOf)

/-! ## Steps of a session -/

/-- A session that was asked to execute some lines, with the lines of output that were
written meanwhile. -/
structure Shows (before after : Session) (lines : List ScriptLine)
    (shown : List OutputLine) : Prop where
  transcript : before.engine.transcript before.interactive lines = some shown
  engine : after.engine = lines.foldl Engine.enter before.engine
  format : after.format = before.format
  interactive : after.interactive = before.interactive
  errors : after.summary.errors =
    before.summary.errors + (shown.map OutputLine.text).countP isMarked

theorem Shows.refl (session : Session) : session.Shows session [] [] :=
  ⟨rfl, rfl, rfl, rfl, rfl⟩

theorem Shows.trans {first second third : Session} {front back : List ScriptLine}
    {early late : List OutputLine} (shows : first.Shows second front early)
    (rest : second.Shows third back late) :
    first.Shows third (front ++ back) (early ++ late) where
  transcript := Engine.transcript_append shows.transcript (by
    rw [← shows.engine, ← shows.interactive]
    exact rest.transcript)
  engine := by rw [rest.engine, shows.engine, List.foldl_append]
  format := rest.format.trans shows.format
  interactive := rest.interactive.trans shows.interactive
  errors := by
    rw [rest.errors, shows.errors, List.map_append, List.countP_append, Nat.add_assoc]

variable {session : Session}

theorem ingest_shows (json : session.format = .json) (text : String) :
    ∃ shown, session.Shows (session.ingest text).1 [.knowledge text] shown ∧
      (session.ingest text).2.output = page shown := by
  cases added : session.engine.add text with
  | mk engine result =>
      rw [ingest, added]
      cases result with
      | ok count =>
          refine ⟨if session.interactive then [.notice] else [],
            ⟨?_, ?_, rfl, rfl, ?_⟩, ?_⟩
          · simp [Engine.transcript, Engine.linesFor, added]
          · simp [Engine.enter, added]
          · cases session.interactive <;> simp
          · cases session.interactive <;>
              simp [page, noticeText, OutputLine.text]
      | error fault =>
          refine ⟨[.refusal fault], ⟨?_, ?_, rfl, rfl, ?_⟩, ?_⟩
          · simp [Engine.transcript, Engine.linesFor, added]
          · simp [Engine.enter, reject, added]
          · simp [reject]
          · simp [page, reject, faultText, OutputLine.text, json]

theorem query_shows (json : session.format = .json) {text : String} {after : Session}
    {reply : Reply} (replied : session.query text = some (after, reply)) :
    ∃ shown, session.Shows after [.query text] shown ∧ reply.output = page shown := by
  obtain ⟨outcome, asked⟩ := exists_ask_of_query replied
  cases outcome with
  | ok r =>
      rw [query_of_ok asked] at replied
      cases replied
      refine ⟨[.answer r], ⟨?_, rfl, rfl, rfl, ?_⟩, ?_⟩
      · simp [Engine.transcript, Engine.linesFor, asked]
      · simp [answered]
      · simp [page, resolutionText, OutputLine.text, json]
  | error fault =>
      rw [query_of_error asked] at replied
      cases replied
      refine ⟨[.refusal fault], ⟨?_, rfl, rfl, rfl, ?_⟩, ?_⟩
      · simp [Engine.transcript, Engine.linesFor, asked]
      · simp
      · simp [page, faultText, OutputLine.text, json]

/-- A line is answered with what is to be written of it. -/
theorem enter_shows (json : session.format = .json) {line : ScriptLine} {after : Session}
    {reply : Reply} (entered : session.enter line = some (after, reply)) :
    ∃ shown, session.Shows after [line] shown ∧ reply.output = page shown := by
  cases line with
  | blank =>
      cases entered
      exact ⟨[], ⟨rfl, rfl, rfl, rfl, rfl⟩, rfl⟩
  | comment =>
      cases entered
      exact ⟨[], ⟨rfl, rfl, rfl, rfl, rfl⟩, rfl⟩
  | query text => exact query_shows json entered
  | knowledge text =>
      have shows := ingest_shows json text
      have ingested : session.ingest text = (after, reply) := Option.some.inj entered
      rwa [ingested] at shows

/-- What is replied to some lines is what is to be written of them. -/
theorem Answers.shows {after : Session} {lines : List ScriptLine} {replies : List Reply}
    (answers : session.Answers lines after replies) (json : session.format = .json) :
    ∃ shown, session.Shows after lines shown ∧ outputOf replies = page shown := by
  induction answers with
  | nil session => exact ⟨[], .refl session, rfl⟩
  | cons here _ ih =>
      obtain ⟨first, shows, output⟩ := enter_shows json here
      obtain ⟨later, others, written⟩ := ih (shows.format.trans json)
      refine ⟨first ++ later, shows.trans others, ?_⟩
      rw [outputOf_cons, output, written, OutputLine.page_append]

theorem serve_shows {sink : Sink} (json : session.format = .json)
    (unlimited : sink.room = none) {requests : List Request}
    (ends : session.engine.Ends (requests.flatMap Request.lines)) :
    ∃ after shown,
      session.serve sink requests = some (after, sink.pour (bytesOf (page shown))) ∧
      session.Shows after (requests.flatMap Request.lines) shown := by
  obtain ⟨after, replies, answers⟩ := exists_answers ends
  obtain ⟨shown, shows, output⟩ := answers.shows json
  have served := answers.serve unlimited
  rw [output] at served
  exact ⟨after, shown, served, shows⟩

end Session

namespace Example

def prompting : Session where
  format := .json
  interactive := true

/-- Requests of every kind; the second query has control characters in it, and the run
has a bad line. -/
def errands : List Session.Request :=
  [.ingest "p(a).\np(b).", .execute "?- p(X).", .query "p(\n\x01",
    .run (Sink.bytesOf "% more\nbad\nq(c).")]

theorem lines_errands : errands.flatMap Session.Request.lines =
    [.knowledge "p(a).\np(b).", .query "p(X).", .query "p(\n\x01", .comment,
      .knowledge "bad", .knowledge "q(c)."] := by
  decide +kernel

theorem ends_errands : prompting.engine.Ends (errands.flatMap Session.Request.lines) := by
  have first : ((prompting.engine.enter (.knowledge "p(a).\np(b).")).ask
      "p(X).").isSome = true := by decide +kernel
  have second : ((prompting.engine.enter (.knowledge "p(a).\np(b).")).ask
      "p(\n\x01").isSome = true := by decide +kernel
  rw [lines_errands]
  simp only [Engine.ends_cons_iff]
  refine ⟨nofun, ?_, ?_, nofun, nofun, nofun, ?_⟩
  · rintro text ⟨⟩
    exact Option.isSome_iff_ne_none.mp first
  · rintro text ⟨⟩
    exact Option.isSome_iff_ne_none.mp second
  · intro before text later split
    simp at split

theorem transcript_errands :
    (prompting.engine.transcript true (errands.flatMap Session.Request.lines)).map
        (fun lines => lines.map OutputLine.isRefusal) =
      some [false, false, true, true, false] := by
  decide +kernel

end Example

namespace Session

open OutputLine (page isMarked)
open Example (prompting errands ends_errands transcript_errands)

/--
What a session writes in JSON is made of lines with a line feed behind each of them and
none within.  They are those of the transcript: a record for every query and for every
text that is rejected, and, if the session is interactive, a notice for every text that
is accepted, all in the order of the requests.  As many of them begin like a record of a
fault as errors are counted.  Of the record of an answered query its resolution is read,
and of the record of a fault the fault.  All this holds of every text that the lines may
have, the details of a fault standing in any order.
-/
theorem serve_json {session : Session} {sink : Sink} {requests : List Request}
    (json : session.format = .json) (unlimited : sink.room = none)
    (ends : session.engine.Ends (requests.flatMap Request.lines)) :
    ∃ after left lines,
      session.serve sink requests = some (after, left) ∧
      left.written = sink.written ++ Sink.bytesOf (page lines) ∧
      session.engine.transcript session.interactive (requests.flatMap Request.lines) =
        some lines ∧
      (∀ line ∈ lines, '\n' ∉ line.text.toList) ∧
      Text.linesOfBytes (Sink.bytesOf (page lines)) =
        lines.map (fun line => some line.text) ∧
      after.summary.errors =
        session.summary.errors + (lines.map OutputLine.text).countP isMarked ∧
      (∀ line ∈ lines, line.Tells line.text) ∧
      ∀ texts, List.Forall₂ OutputLine.Spells lines texts →
        (∀ text ∈ texts, '\n' ∉ text.toList) ∧
        List.Forall₂ OutputLine.Tells lines texts ∧
        Text.linesOfBytes (Sink.bytesOf (String.join (texts.map (· ++ "\n")))) =
          texts.map some ∧
        after.summary.errors = session.summary.errors + texts.countP isMarked := by
  obtain ⟨after, lines, served, shows⟩ := serve_shows json unlimited ends
  refine ⟨after, _, lines, served, ?written, shows.transcript,
    fun line _ => line.spells_text.flat.not_mem (by decide), ?cut, shows.errors,
    fun line _ => line.spells_text.tells,
    fun texts spells => ⟨?noFeed, ?tells, ?cutAny, ?marks⟩⟩
  case written => rw [Sink.pour, unlimited]
  case cut =>
    rw [Text.linesOfBytes_bytesOf, OutputLine.linesOf_page, List.map_map]
    rfl
  case noFeed =>
    exact OutputLine.Spells.forall_mem spells fun _ _ spells =>
      spells.flat.not_mem (by decide)
  case tells => exact spells.imp fun _ _ spells => spells.tells
  case cutAny => rw [Text.linesOfBytes_bytesOf, OutputLine.linesOf_join spells]
  case marks =>
    rw [shows.errors, OutputLine.countP_isMarked spells,
      OutputLine.countP_isMarked (OutputLine.spells_map_text lines)]

/-- Five lines are written, and the query that cannot be read and the bad line of the run
are counted as errors. -/
theorem serve_json_errands :
    prompting.format = .json ∧ ({} : Sink).room = none ∧
    prompting.engine.Ends (errands.flatMap Request.lines) ∧
    ∃ after left,
      prompting.serve {} errands = some (after, left) ∧
      (Text.linesOfBytes left.written).map (Option.map isMarked) =
        [some false, some false, some true, some true, some false] ∧
      after.summary.errors = 2 := by
  have json : prompting.format = .json := rfl
  have unlimited : ({} : Sink).room = none := rfl
  obtain ⟨after, left, lines, served, written, shown, _, cut, counted, _⟩ :=
    serve_json json unlimited ends_errands
  have marks : lines.map OutputLine.isRefusal = [false, false, true, true, false] := by
    have marked := transcript_errands
    change (prompting.engine.transcript prompting.interactive _).map _ = _ at marked
    rw [shown] at marked
    exact Option.some.inj marked
  have same : isMarked ∘ OutputLine.text = OutputLine.isRefusal :=
    funext OutputLine.isMarked_text
  refine ⟨json, unlimited, ends_errands, after, left, served, ?_, ?_⟩
  · have whole : left.written = Sink.bytesOf (page lines) := written
    calc (Text.linesOfBytes left.written).map (Option.map isMarked)
        = (lines.map (isMarked ∘ OutputLine.text)).map some := by
          rw [whole, cut, List.map_map, List.map_map]
          rfl
      _ = [some false, some false, some true, some true, some false] := by
          rw [same, marks]
          rfl
  · calc after.summary.errors
        = (lines.map (isMarked ∘ OutputLine.text)).countP id := by
          rw [counted, List.countP_map, List.countP_map]
          exact Nat.zero_add _
      _ = 2 := by
          rw [same, marks]
          rfl

end Session

end HornLogic
