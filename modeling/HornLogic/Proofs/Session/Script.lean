import HornLogic.Proofs.Engine.Answers
import HornLogic.Proofs.Session.Line
import Mathlib.Algebra.Ring.Nat

/-!
# Scripts

A script is run line by line.  What a line brings about depends on the clauses
of the lines before it and on nothing else that has happened: knowledge adds its
clause, and a query is answered and leaves the clauses as they are.  So a script
that is put together from two leaves what they leave one after the other, and the
ingest policy does not matter.
-/

namespace HornLogic

open Statement (Rejection)

namespace ScriptLine

def clause? : ScriptLine → Option Clause
  | .knowledge text => (Clause.read text).toOption
  | _ => none

def isQuery : ScriptLine → Bool
  | .query _ => true
  | _ => false

def isRejected : ScriptLine → Bool
  | .knowledge text => !(Clause.read text).isOk
  | .query text => !(Engine.readQuery text).isOk
  | _ => false

end ScriptLine

/-- What a line brings about, apart from its clause. -/
structure Turn where
  /-- The number of solutions that are found. -/
  solutions : Nat := 0
  /-- The text that is written. -/
  output : String := ""
deriving DecidableEq, Inhabited

namespace Summary

def plus (first second : Summary) : Summary where
  statements := first.statements + second.statements
  queries := first.queries + second.queries
  solutions := first.solutions + second.solutions
  errors := first.errors + second.errors

/-- What lines and their turns add to the counters. -/
def tally (lines : List ScriptLine) (turns : List Turn) : Summary where
  statements := (lines.filterMap ScriptLine.clause?).length
  queries := lines.countP ScriptLine.isQuery
  solutions := (turns.map Turn.solutions).sum
  errors := lines.countP ScriptLine.isRejected

theorem plus_assoc (first second third : Summary) :
    (first.plus second).plus third = first.plus (second.plus third) := by
  simp only [plus, Nat.add_assoc]

theorem since_plus (first second : Summary) :
    (first.plus second).since first = second := by
  simp only [since, plus, Nat.add_sub_cancel_left]

theorem tally_append (front back : List ScriptLine) (first second : List Turn) :
    tally (front ++ back) (first ++ second) =
      (tally front first).plus (tally back second) := by
  simp only [tally, plus, List.filterMap_append, List.length_append,
    List.countP_append, List.map_append, List.sum_append]

end Summary

def Sink.extend (sink : Sink) (turns : List Turn) : Sink :=
  { sink with
    written := sink.written ++ turns.flatMap fun turn => bytesOf turn.output }

theorem Sink.extend_append (sink : Sink) (first second : List Turn) :
    (sink.extend first).extend second = sink.extend (first ++ second) := by
  simp [extend]

theorem Sink.write_unlimited {sink : Sink} (unlimited : sink.room = none)
    (turn : Turn) : sink.write turn.output = (sink.extend [turn], .ok ()) := by
  simp [write, unlimited, extend]

namespace Session

open Summary (tally)

def knowing (session : Session) (lines : List ScriptLine) : Session :=
  { session with
    engine.kb := session.engine.kb.addAll (lines.filterMap ScriptLine.clause?) }

def after (session : Session) (lines : List ScriptLine) (turns : List Turn) :
    Session :=
  { session.knowing lines with summary := session.summary.plus (tally lines turns) }

/-- The turn of a line; none if the search for its answers has no end. -/
def turn (session : Session) : ScriptLine → Option Turn
  | .blank | .comment => some {}
  | .knowledge text =>
      match Clause.read text with
      | .ok _ => some { output := noticeText session.interactive }
      | .error rejection =>
          some { output :=
            faultText session.format (.ofRejection (rejection.onLine 1)) }
  | .query text =>
      (session.engine.ask text).map fun
        | .error fault => { output := faultText session.format fault }
        | .ok r =>
            { solutions := r.solutions.length
              output := resolutionText session.format session.trace r }

def turns (session : Session) : List ScriptLine → Option (List Turn)
  | [] => some []
  | line :: rest => do
      let turn ← session.turn line
      let later ← (session.knowing [line]).turns rest
      return turn :: later

theorem knowing_nil (session : Session) : session.knowing [] = session := by
  simp [knowing, KnowledgeBase.addAll]

theorem knowing_append (session : Session) (front back : List ScriptLine) :
    (session.knowing front).knowing back = session.knowing (front ++ back) := by
  simp [knowing, KnowledgeBase.addAll]

theorem after_nil (session : Session) : session.after [] [] = session :=
  session.knowing_nil

theorem after_append (session : Session) (front back : List ScriptLine)
    (first second : List Turn) :
    (session.after front first).after back second =
      session.after (front ++ back) (first ++ second) := by
  simp only [after, knowing, Summary.plus_assoc, Summary.tally_append,
    KnowledgeBase.addAll, List.filterMap_append, List.append_assoc]

theorem turn_summary (session : Session) (summary : Summary) (line : ScriptLine) :
    turn { session with summary := summary } line = session.turn line := by
  cases line <;> rfl

theorem turns_summary (session : Session) (summary : Summary)
    (lines : List ScriptLine) :
    turns { session with summary := summary } lines = session.turns lines := by
  induction lines generalizing session with
  | nil => rfl
  | cons line lines ih =>
      have rest := ih (session.knowing [line])
      rw [turns, turns, turn_summary]
      exact bind_congr fun turn => by rw [← rest]; rfl

/-- What was counted has no influence on the turns of later lines. -/
theorem turns_after (session : Session) (lines : List ScriptLine)
    (taken : List Turn) (later : List ScriptLine) :
    (session.after lines taken).turns later = (session.knowing lines).turns later :=
  turns_summary (session.knowing lines) _ later

theorem turns_append (session : Session) (front back : List ScriptLine) :
    session.turns (front ++ back) = (session.turns front).bind fun first =>
      ((session.knowing front).turns back).map (first ++ ·) := by
  induction front generalizing session with
  | nil => simp [turns, knowing_nil]
  | cons line front ih =>
      have known : (session.knowing [line]).knowing front =
          session.knowing (line :: front) := session.knowing_append [line] front
      rw [List.cons_append, turns, turns, ih, known]
      cases session.turn line with
      | none => rfl
      | some turn =>
          cases (session.knowing [line]).turns front with
          | none => rfl
          | some first =>
              cases (session.knowing (line :: front)).turns back <;> rfl

theorem length_turns {session : Session} {lines : List ScriptLine}
    {turns : List Turn} (taken : session.turns lines = some turns) :
    turns.length = lines.length := by
  induction lines generalizing session turns with
  | nil =>
      cases taken
      rfl
  | cons line lines ih =>
      obtain ⟨turn, _, rest⟩ := Option.bind_eq_some_iff.mp taken
      obtain ⟨later, after, same⟩ := Option.bind_eq_some_iff.mp rest
      cases same
      rw [List.length_cons, List.length_cons, ih after]

/-- Each line has its turn after the lines before it. -/
theorem getElem?_turns {session : Session} {before later : List ScriptLine}
    {line : ScriptLine} {turns : List Turn}
    (taken : session.turns (before ++ line :: later) = some turns) :
    turns[before.length]? = (session.knowing before).turn line := by
  rw [turns_append] at taken
  obtain ⟨first, front, rest⟩ := Option.bind_eq_some_iff.mp taken
  obtain ⟨second, behind, rfl⟩ := Option.map_eq_some_iff.mp rest
  obtain ⟨turn, here, rest⟩ := Option.bind_eq_some_iff.mp behind
  obtain ⟨after, _, same⟩ := Option.bind_eq_some_iff.mp rest
  cases same
  rw [here, ← length_turns front, List.getElem?_append_right (Nat.le_refl _),
    Nat.sub_self]
  rfl

/-- A line has its turn, unless it is a query whose search has no end. -/
theorem exists_turn {session : Session} {line : ScriptLine}
    (ends : ∀ text, line = .query text → session.engine.ask text ≠ none) :
    ∃ turn, session.turn line = some turn := by
  cases line with
  | blank => exact ⟨_, rfl⟩
  | comment => exact ⟨_, rfl⟩
  | knowledge text =>
      rw [turn]
      cases Clause.read text <;> exact ⟨_, rfl⟩
  | query text =>
      obtain ⟨outcome, answer⟩ := Option.ne_none_iff_exists'.mp (ends text rfl)
      exact ⟨_, by rw [turn, answer]; rfl⟩

/-- Every line has its turn if the search for every query ends. -/
theorem exists_turns {session : Session} {lines : List ScriptLine}
    (ends : ∀ before text later, lines = before ++ .query text :: later →
      (session.knowing before).engine.ask text ≠ none) :
    ∃ turns, session.turns lines = some turns := by
  induction lines generalizing session with
  | nil => exact ⟨[], rfl⟩
  | cons line lines ih =>
      have first : ∀ text, line = .query text → session.engine.ask text ≠ none := by
        rintro text rfl
        have ended := ends [] text lines rfl
        rwa [knowing_nil] at ended
      have others : ∀ before text later, lines = before ++ .query text :: later →
          ((session.knowing [line]).knowing before).engine.ask text ≠ none := by
        intro before text later split
        rw [knowing_append]
        exact ends (line :: before) text later (by rw [split, List.cons_append])
      obtain ⟨turn, here⟩ := exists_turn first
      obtain ⟨later, rest⟩ := ih others
      exact ⟨turn :: later, by rw [turns, here]; simp [rest]⟩

def take (session : Session) (line : ScriptLine) (turn : Turn) : Session × Reply :=
  (session.after [line] [turn], ⟨!line.isRejected, turn.output⟩)

theorem ingest_line {text : String} (noFeed : '\n' ∉ text.toList)
    (solid : Text.allBlank text.toList = false) (session : Session) :
    some (session.ingest text) =
      (session.turn (.knowledge text)).map (session.take (.knowledge text)) := by
  cases isRead : Clause.read text with
  | ok clause =>
      simp [ingest, Engine.add_line_of_ok noFeed solid isRead, turn, take, after,
        knowing, Summary.plus, tally, ScriptLine.clause?, ScriptLine.isQuery,
        ScriptLine.isRejected, isRead, Except.toOption, Except.isOk, Except.toBool]
  | error rejection =>
      simp [ingest, Engine.add_line_of_error noFeed solid isRead, reject, turn, take,
        after, knowing, Summary.plus, tally, ScriptLine.clause?, ScriptLine.isQuery,
        ScriptLine.isRejected, isRead, Except.toOption, Except.isOk, Except.toBool,
        KnowledgeBase.addAll]

theorem query_line (text : String) (session : Session) :
    session.query text =
      (session.turn (.query text)).map (session.take (.query text)) := by
  have known : session.knowing [.query text] = session := session.knowing_nil
  cases isRead : Engine.readQuery text with
  | ok question =>
      simp [query, Engine.ask, isRead, turn, take, after, known, Summary.plus, tally,
        List.filterMap_cons, ScriptLine.clause?, ScriptLine.isQuery,
        ScriptLine.isRejected, Except.isOk, Except.toBool, Function.comp_def]
  | error fault =>
      simp [query, Engine.ask, isRead, reject, turn, take, after, known,
        Summary.plus, tally, List.filterMap_cons, ScriptLine.clause?,
        ScriptLine.isQuery, ScriptLine.isRejected, Except.isOk, Except.toBool]

/-- A single line takes its turn, and it is accepted unless it cannot be read. -/
theorem execute_line {line : String} (noFeed : '\n' ∉ line.toList)
    (session : Session) :
    session.execute line =
      (session.turn (ScriptLine.classify line)).map
        (session.take (ScriptLine.classify line)) := by
  rw [execute]
  cases isLine : ScriptLine.classify line with
  | blank => exact congrArg (fun same => some (same, _)) session.knowing_nil.symm
  | comment => exact congrArg (fun same => some (same, _)) session.knowing_nil.symm
  | knowledge text =>
      obtain ⟨noFeed, solid⟩ := ScriptLine.knowledge_of_classify isLine noFeed
      exact session.ingest_line noFeed solid
  | query text => exact session.query_line text

/-- A session after some lines and their turns, with what it has written and what
it has counted; none if a line has no turn. -/
def outcome (session : Session) (sink : Sink) (lines : List ScriptLine) :
    Option (Session × Sink × Except Fault Summary) :=
  (session.turns lines).map fun turns =>
    (session.after lines turns, sink.extend turns, .ok (tally lines turns))

/-- The lines of a run take their turns one after the other. -/
theorem executeAll_lines {lines : List String}
    (noFeed : ∀ line ∈ lines, '\n' ∉ line.toList) {sink : Sink}
    (unlimited : sink.room = none) (session : Session) :
    session.executeAll sink (lines.map some) =
      (session.turns (lines.map ScriptLine.classify)).map fun turns =>
        (session.after (lines.map ScriptLine.classify) turns, sink.extend turns,
          .ok ()) := by
  induction lines generalizing session sink with
  | nil =>
      have unwritten : sink.extend [] = sink := by simp [Sink.extend]
      simp only [List.map_nil, executeAll, turns, Option.map_some, after_nil,
        unwritten]
  | cons line lines ih =>
      obtain ⟨here, others⟩ := List.forall_mem_cons.mp noFeed
      rw [List.map_cons, List.map_cons, executeAll, execute_line here, turns]
      generalize ScriptLine.classify line = first
      cases session.turn first with
      | none => rfl
      | some turn =>
          have rest := ih others
            (show (sink.extend [turn]).room = none from unlimited)
            (session.after [first] [turn])
          rw [turns_after] at rest
          simp only [Option.map_some, Option.bind_eq_bind, Option.bind_some, take,
            Sink.write_unlimited unlimited, rest]
          cases (session.knowing [first]).turns (lines.map ScriptLine.classify) with
          | none => rfl
          | some later =>
              simp only [Option.map_some, Option.bind_some, after_append,
                Sink.extend_append]
              rfl

def runScript (session : Session) (sink : Sink) (script : String) :
    Option (Session × Sink × Except Fault Summary) :=
  session.run sink (Text.linesOfBytes (Sink.bytesOf script))

theorem runScript_eq {sink : Sink} (unlimited : sink.room = none)
    (session : Session) (script : String) :
    session.runScript sink script =
      session.outcome sink (ScriptLine.ofScript script) := by
  rw [runScript, run, Text.linesOfBytes_bytesOf,
    executeAll_lines (fun _ => Text.lineFeed_not_mem_linesOf) unlimited, outcome,
    ScriptLine.ofScript]
  generalize (Text.linesOf script).map ScriptLine.classify = lines
  cases session.turns lines with
  | none => rfl
  | some turns =>
      simp only [Option.map_some, Option.bind_eq_bind, Option.bind_some]
      rw [after, Except.map, Summary.since_plus]
      rfl

theorem outcome_blank (session : Session) (sink : Sink) (lines : List ScriptLine) :
    session.outcome sink (.blank :: lines) = session.outcome sink lines := by
  have known : session.knowing [.blank] = session := session.knowing_nil
  have uncounted (turns : List Turn) :
      tally (.blank :: lines) ({} :: turns) = tally lines turns := by
    simp [tally, List.filterMap_cons, ScriptLine.clause?, ScriptLine.isQuery,
      ScriptLine.isRejected]
  have unchanged (turns : List Turn) :
      session.after (.blank :: lines) ({} :: turns) = session.after lines turns := by
    rw [after, after, uncounted]
    rfl
  have unwritten (turns : List Turn) :
      sink.extend ({} :: turns) = sink.extend turns := rfl
  rw [outcome, outcome, turns, turn, known]
  cases session.turns lines with
  | none => rfl
  | some turns =>
      simp only [Option.bind_eq_bind, Option.bind_some, Option.map_some,
        Option.pure_def, uncounted, unchanged, unwritten]

theorem outcome_append (session : Session) (sink : Sink)
    (front back : List ScriptLine) :
    session.outcome sink (front ++ back) =
      (session.outcome sink front).bind fun (first, sink, grown) =>
        (first.outcome sink back).map fun (second, sink, later) =>
          (second, sink, do return (← grown).plus (← later)) := by
  rw [outcome, outcome, turns_append]
  cases session.turns front with
  | none => rfl
  | some first =>
      simp only [Option.bind_some, Option.map_some, outcome, turns_after]
      cases (session.knowing front).turns back with
      | none => rfl
      | some second =>
          simp only [Option.map_some, ← after_append, ← Sink.extend_append,
            Summary.tally_append]
          rfl

/-- A line feed between two scripts runs one after the other. -/
theorem runScript_append {sink : Sink} (unlimited : sink.room = none)
    (session : Session) (front back : String) :
    session.runScript sink (front ++ "\n" ++ back) =
      (session.runScript sink front).bind fun (first, sink, grown) =>
        (first.runScript sink back).map fun (second, sink, later) =>
          (second, sink, do return (← grown).plus (← later)) := by
  obtain ⟨gap, blank, lines⟩ := ScriptLine.ofScript_append front back
  rw [runScript_eq unlimited, runScript_eq unlimited, lines, outcome_append]
  refine Option.bind_congr fun ⟨first, sink', grown⟩ ended => ?_
  obtain ⟨turns, _, same⟩ := Option.map_eq_some_iff.mp ended
  have unlimited' : sink'.room = none := by
    cases same
    exact unlimited
  have rest : first.outcome sink' (gap ++ ScriptLine.ofScript back) =
      first.runScript sink' back := by
    rw [runScript_eq unlimited']
    rcases blank with rfl | rfl
    · rfl
    · exact first.outcome_blank sink' _
  simp only [rest]

/-! ## Ingest policies -/

def withIngest (session : Session) (policy : IngestPolicy) : Session :=
  { session with engine.settings.ingest := policy }

theorem turn_withIngest (session : Session) (policy : IngestPolicy)
    (line : ScriptLine) :
    (session.withIngest policy).turn line = session.turn line := by
  cases line <;> rfl

theorem execute_withIngest {line : String} (noFeed : '\n' ∉ line.toList)
    (session : Session) (policy : IngestPolicy) :
    (session.withIngest policy).execute line =
      (session.execute line).map fun (after, reply) =>
        (after.withIngest policy, reply) := by
  rw [execute_line noFeed, execute_line noFeed, turn_withIngest, Option.map_map]
  rfl

/-- Wherever a run of single lines ends, the ingest policy does not matter. -/
theorem executeAll_withIngest {lines : List (Option String)}
    (noFeed : ∀ line, some line ∈ lines → '\n' ∉ line.toList) (sink : Sink)
    (session : Session) (policy : IngestPolicy) :
    (session.withIngest policy).executeAll sink lines =
      (session.executeAll sink lines).map fun (after, sink, result) =>
        (after.withIngest policy, sink, result) := by
  induction lines generalizing session sink with
  | nil => rfl
  | cons line lines ih =>
      cases line with
      | none => rfl
      | some line =>
          rw [executeAll, executeAll,
            execute_withIngest (noFeed line List.mem_cons_self)]
          cases session.execute line with
          | none => rfl
          | some executed =>
              simp only [Option.map_some, Option.bind_eq_bind, Option.bind_some]
              cases sink.write executed.2.output with
              | mk sink' wrote =>
                  cases wrote with
                  | ok done =>
                      exact ih (fun line member =>
                        noFeed line (List.mem_cons_of_mem _ member)) sink' executed.1
                  | error fault => rfl

theorem run_withIngest (session : Session) (policy : IngestPolicy) (sink : Sink)
    (input : List UInt8) :
    (session.withIngest policy).run sink (Text.linesOfBytes input) =
      (session.run sink (Text.linesOfBytes input)).map
        fun (after, sink, result) => (after.withIngest policy, sink, result) := by
  rw [run, run,
    executeAll_withIngest fun line => Text.lineFeed_not_mem_linesOfBytes]
  cases session.executeAll sink (Text.linesOfBytes input) <;> rfl

end Session

/-! ## Scripts -/

namespace Example

/-- A script with knowledge, a line that cannot be read, and a query. -/
def errand : String :=
  "parent(john, mary).\nbad\n?- parent(john, X).\r\n"

def errandLines : List ScriptLine :=
  [.knowledge "parent(john, mary).", .knowledge "bad", .query "parent(john, X)."]

def johnsChild : Clause :=
  .fact ⟨"parent", [.const "john", .const "mary"]⟩

theorem ofScript_errand : ScriptLine.ofScript errand = errandLines := by
  decide +kernel

theorem clauses_errand :
    errandLines.filterMap ScriptLine.clause? = [johnsChild] := by
  decide +kernel

theorem readQuery_errand : Predicate.readQuery "parent(john, X)." =
    .ok ⟨"parent", [.const "john", .var ⟨"X"⟩]⟩ := by
  decide +kernel

theorem rejected_errand : errandLines.countP ScriptLine.isRejected = 1 := by
  have isRead : ScriptLine.isRejected (.knowledge "parent(john, mary).") = false := by
    decide +kernel
  have rejected : ScriptLine.isRejected (.knowledge "bad") = true := by decide +kernel
  have asked : ScriptLine.isRejected (.query "parent(john, X).") = false := by
    rw [ScriptLine.isRejected, Engine.readQuery_eq_ok_iff.mpr readQuery_errand]
    rfl
  simp [errandLines, isRead, rejected, asked]

/-- The question of the script is answered by its clause. -/
theorem ask_errand : ∃ outcome,
    (({} : Session).knowing
      [.knowledge "parent(john, mary).", .knowledge "bad"]).engine.ask
        "parent(john, X)." = some (.ok outcome) ∧
      outcome.solutions = [⟨"parent", [.const "john", .const "mary"]⟩] := by
  have known : (({} : Session).knowing
      [.knowledge "parent(john, mary).", .knowledge "bad"]).engine =
        { kb := ⟨[johnsChild]⟩ } := by
    decide +kernel
  have found : (Engine.resolve { kb := ⟨[johnsChild]⟩ }
      ⟨"parent", [.const "john", .var ⟨"X"⟩]⟩).map (·.solutions) =
        some [⟨"parent", [.const "john", .const "mary"]⟩] := by
    decide +kernel
  obtain ⟨outcome, resolved, solutions⟩ := Option.map_eq_some_iff.mp found
  refine ⟨outcome, ?_, solutions⟩
  rw [known]
  exact Engine.ask_eq_ok_iff.mpr ⟨_, readQuery_errand, resolved⟩

end Example

namespace Session

open Summary (tally)
open Example

/--
A script whose queries have an answer is run to its end: every line takes its
turn knowing the lines before it, the clauses that can be read are added in
order, the output of the turns is written in order, and the counters grow by what
the run reports.  A line feed between two scripts runs one after the other, and
another ingest policy changes nothing.
-/
theorem run_lines (session : Session) {sink : Sink} (unlimited : sink.room = none) :
    (∀ script : String,
      (∀ before text later,
        ScriptLine.ofScript script = before ++ .query text :: later →
          (session.knowing before).engine.ask text ≠ none) →
      ∃ turns : List Turn,
        turns.length = (ScriptLine.ofScript script).length ∧
        (∀ before line later,
          ScriptLine.ofScript script = before ++ line :: later →
            turns[before.length]? = (session.knowing before).turn line) ∧
        session.runScript sink script =
          some (session.after (ScriptLine.ofScript script) turns,
            sink.extend turns, .ok (tally (ScriptLine.ofScript script) turns))) ∧
    (∀ front back : String,
      session.runScript sink (front ++ "\n" ++ back) =
        (session.runScript sink front).bind fun (first, sink, grown) =>
          (first.runScript sink back).map fun (second, sink, later) =>
            (second, sink, do return (← grown).plus (← later))) ∧
    ∀ (policy : IngestPolicy) (script : String),
      (session.withIngest policy).runScript sink script =
        (session.runScript sink script).map fun (after, sink, result) =>
          (after.withIngest policy, sink, result) := by
  refine ⟨fun script ends => ?_, session.runScript_append unlimited,
    fun policy script => session.run_withIngest policy sink _⟩
  obtain ⟨turns, taken⟩ := exists_turns ends
  refine ⟨turns, length_turns taken, fun before line later split => ?_, ?_⟩
  · rw [split] at taken
    exact getElem?_turns taken
  · rw [runScript_eq unlimited, outcome, taken, Option.map_some]

/-- A script with a line that cannot be read is run to its end, and its question
is answered by the line in front. -/
theorem run_lines_errand :
    ({} : Sink).room = none ∧
    ∃ turns : List Turn,
      ({} : Session).runScript {} errand =
        some (({} : Session).after errandLines turns, ({} : Sink).extend turns,
          .ok (tally errandLines turns)) ∧
      (({} : Session).after errandLines turns).engine.kb = ⟨[johnsChild]⟩ ∧
      (tally errandLines turns).queries = 1 ∧
      (tally errandLines turns).errors = 1 ∧
      turns[2]?.map Turn.solutions = some 1 := by
  obtain ⟨outcome, answered, solutions⟩ := ask_errand
  have ends : ∀ before text later,
      ScriptLine.ofScript errand = before ++ .query text :: later →
        (({} : Session).knowing before).engine.ask text ≠ none := by
    intro before text later split
    rw [ofScript_errand, errandLines] at split
    rcases before with _ | ⟨first, _ | ⟨second, _ | ⟨third, before⟩⟩⟩ <;>
      simp at split
    obtain ⟨rfl, rfl, rfl, _⟩ := split
    exact Option.ne_none_iff_exists'.mpr ⟨_, answered⟩
  obtain ⟨scripts, _⟩ := run_lines {} (show ({} : Sink).room = none from rfl)
  obtain ⟨turns, _, each, ran⟩ := scripts errand ends
  have question := each [.knowledge "parent(john, mary).", .knowledge "bad"]
    (.query "parent(john, X).") [] ofScript_errand
  rw [turn, answered] at question
  rw [ofScript_errand] at ran
  refine ⟨rfl, turns, ran, ?_, rfl, rejected_errand, ?_⟩
  · rw [after, knowing, clauses_errand]
    rfl
  · rw [show turns[2]? = _ from question, Option.map_some, Option.map_some]
    exact congrArg (fun found => some found.length) solutions

end Session

end HornLogic
