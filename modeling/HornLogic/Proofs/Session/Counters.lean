import HornLogic.Proofs.Session.Line
import Mathlib.Algebra.Ring.Nat

/-!
# Counters

The counter of statements and the clauses of the engine.  Whatever is called,
both grow alike, but for the clauses that the ingest policy keeps of a rejected
text: these are left behind in the engine, and no counter counts them.
-/

namespace HornLogic

/-- The number of clauses that a text leaves behind although it is rejected. -/
def IngestPolicy.leftBehind (policy : IngestPolicy) (text : String) : Nat :=
  match Statement.collect (Clause.readLines text) with
  | .ok _ => 0
  | .error _ => (policy.kept (Clause.readLines text)).length

theorem IngestPolicy.leftBehind_allOrNothing (text : String) :
    leftBehind .allOrNothing text = 0 := by
  rw [leftBehind]
  split <;> rfl

def ScriptLine.leftBehind (policy : IngestPolicy) : ScriptLine → Nat
  | .knowledge text => policy.leftBehind text
  | _ => 0

/-- Nothing stands in front of the bad line if there is only one. -/
theorem ScriptLine.leftBehind_classify {line : String}
    (noFeed : '\n' ∉ line.toList) (policy : IngestPolicy) :
    (classify line).leftBehind policy = 0 := by
  cases isKnowledge : classify line with
  | knowledge text =>
      obtain ⟨noFeed, solid⟩ := knowledge_of_classify isKnowledge noFeed
      rw [leftBehind, IngestPolicy.leftBehind, Clause.readLines_line noFeed solid]
      cases Statement.readNumbered text.toList 1 with
      | ok clause => rfl
      | error rejection => cases policy <;> rfl
  | _ => rfl

namespace Session

/-- From one session to another the settings stay, and the clauses grow by those
that the counter of statements counts and by some that it does not. -/
structure Grows (before after : Session) (uncounted : Nat) : Prop where
  settings : after.engine.settings = before.engine.settings
  size : after.engine.kb.size + before.summary.statements =
    before.engine.kb.size + (after.summary.statements + uncounted)

theorem Grows.refl (session : Session) : session.Grows session 0 :=
  ⟨rfl, rfl⟩

theorem Grows.trans {first second third : Session} {here later : Nat}
    (grows : first.Grows second here) (rest : second.Grows third later) :
    first.Grows third (here + later) where
  settings := rest.settings.trans grows.settings
  size := by
    have := grows.size
    have := rest.size
    omega

theorem ingest_of_ok {text : String} {clauses : List Clause}
    (collected : Statement.collect (Clause.readLines text) = .ok clauses)
    (session : Session) :
    session.ingest text =
      ({ session with
          engine.kb := session.engine.kb.addAll clauses
          summary.statements := session.summary.statements + clauses.length },
        ⟨true, noticeText session.interactive⟩) := by
  rw [ingest, Engine.add_of_ok collected]

theorem ingest_of_error {text : String} {rejection : Statement.Rejection}
    (collected : Statement.collect (Clause.readLines text) = .error rejection)
    (session : Session) :
    session.ingest text =
      reject
        { session with
          engine.kb := session.engine.kb.addAll
            (session.engine.settings.ingest.kept (Clause.readLines text)) }
        (.ofRejection rejection) := by
  rw [ingest, Engine.add_of_error collected]

theorem ingest_grows (session : Session) (text : String) :
    session.Grows (session.ingest text).1
      (session.engine.settings.ingest.leftBehind text) := by
  cases collected : Statement.collect (Clause.readLines text) with
  | ok clauses =>
      rw [ingest_of_ok collected, IngestPolicy.leftBehind, collected]
      refine ⟨rfl, ?_⟩
      simp only [KnowledgeBase.size, KnowledgeBase.toList_addAll, List.length_append]
      omega
  | error rejection =>
      rw [ingest_of_error collected, IngestPolicy.leftBehind, collected]
      refine ⟨rfl, ?_⟩
      simp only [reject, KnowledgeBase.size, KnowledgeBase.toList_addAll,
        List.length_append]
      omega

theorem query_grows {session after : Session} {text : String} {reply : Reply}
    (answered : session.query text = some (after, reply)) :
    session.Grows after 0 := by
  obtain ⟨outcome, _, same⟩ := Option.map_eq_some_iff.mp answered
  cases outcome <;> cases same <;> exact ⟨rfl, rfl⟩

theorem execute_grows {session after : Session} {line : String} {reply : Reply}
    (executed : session.execute line = some (after, reply)) :
    session.Grows after
      ((ScriptLine.classify line).leftBehind session.engine.settings.ingest) := by
  rw [execute] at executed
  cases isLine : ScriptLine.classify line with
  | knowledge text =>
      rw [isLine] at executed
      have same : (session.ingest text).1 = after :=
        congrArg Prod.fst (Option.some.inj executed)
      rw [← same]
      exact session.ingest_grows text
  | query text =>
      rw [isLine] at executed
      exact query_grows executed
  | _ =>
      rw [isLine] at executed
      cases executed
      exact .refl _

/-- Single lines leave nothing behind, wherever a run ends. -/
theorem executeAll_grows {session after : Session} {sink left : Sink}
    {lines : List (Option String)} {result : Except Fault Unit}
    (noFeed : ∀ line, some line ∈ lines → '\n' ∉ line.toList)
    (executed : session.executeAll sink lines = some (after, left, result)) :
    session.Grows after 0 := by
  induction lines generalizing session sink with
  | nil =>
      cases executed
      exact .refl _
  | cons line lines ih =>
      cases line with
      | none =>
          cases executed
          exact .refl _
      | some line =>
          obtain ⟨⟨next, reply⟩, here, rest⟩ := Option.bind_eq_some_iff.mp executed
          have grows := execute_grows here
          rw [ScriptLine.leftBehind_classify (noFeed line List.mem_cons_self)] at grows
          cases written : sink.write reply.output with
          | mk sink' wrote =>
              cases wrote with
              | ok done =>
                  simp only [written] at rest
                  exact grows.trans (ih (fun line member =>
                    noFeed line (List.mem_cons_of_mem _ member)) rest)
              | error fault =>
                  simp only [written] at rest
                  cases rest
                  exact grows

theorem run_grows {session after : Session} {sink left : Sink}
    {input : List UInt8} {result : Except Fault Summary}
    (ran : session.run sink (Text.linesOfBytes input) = some (after, left, result)) :
    session.Grows after 0 := by
  obtain ⟨⟨next, sink', ended⟩, executed, same⟩ := Option.bind_eq_some_iff.mp ran
  cases same
  exact executeAll_grows (fun line => Text.lineFeed_not_mem_linesOfBytes) executed

/-! ## Calls -/

inductive Call where
  | run (sink : Sink) (input : List UInt8)
  | execute (sink : Sink) (line : String)
  | ingest (sink : Sink) (text : String)
  | query (sink : Sink) (text : String)

def Call.leftBehind (policy : IngestPolicy) : Call → Nat
  | .execute _ line => (ScriptLine.classify line).leftBehind policy
  | .ingest _ text => policy.leftBehind text
  | .run .. | .query .. => 0

theorem Call.leftBehind_allOrNothing (call : Call) :
    call.leftBehind .allOrNothing = 0 := by
  cases call with
  | execute sink line =>
      rw [leftBehind]
      cases ScriptLine.classify line with
      | knowledge text => exact IngestPolicy.leftBehind_allOrNothing text
      | _ => rfl
  | ingest sink text => exact IngestPolicy.leftBehind_allOrNothing text
  | _ => rfl

/-- Make a call, whether or not the sink has room for the output; the result is
none if a search has no end. -/
def perform (session : Session) : Call → Option (Session × Sink)
  | .run sink input =>
      (session.run sink (Text.linesOfBytes input)).map fun (after, left, _) =>
        (after, left)
  | .execute sink line =>
      (session.execute line).map fun (after, reply) =>
        (after, (deliver sink reply).1)
  | .ingest sink text =>
      let (after, reply) := session.ingest text
      some (after, (deliver sink reply).1)
  | .query sink text =>
      (session.query text).map fun (after, reply) =>
        (after, (deliver sink reply).1)

def performAll (session : Session) : List Call → Option Session
  | [] => some session
  | call :: rest => do
      let (after, _) ← session.perform call
      after.performAll rest

theorem perform_grows {session after : Session} {call : Call} {left : Sink}
    (performed : session.perform call = some (after, left)) :
    session.Grows after (call.leftBehind session.engine.settings.ingest) := by
  cases call with
  | run sink input =>
      obtain ⟨⟨next, sink', result⟩, ran, same⟩ := Option.map_eq_some_iff.mp performed
      cases same
      exact run_grows ran
  | execute sink line =>
      obtain ⟨⟨next, reply⟩, executed, same⟩ := Option.map_eq_some_iff.mp performed
      cases same
      exact execute_grows executed
  | ingest sink text =>
      cases performed
      exact session.ingest_grows text
  | query sink text =>
      obtain ⟨⟨next, reply⟩, answered, same⟩ := Option.map_eq_some_iff.mp performed
      cases same
      exact query_grows answered

theorem performAll_grows {session after : Session} {calls : List Call}
    (performed : session.performAll calls = some after) :
    session.Grows after
      (calls.map (·.leftBehind session.engine.settings.ingest)).sum := by
  induction calls generalizing session with
  | nil =>
      cases performed
      exact .refl _
  | cons call calls ih =>
      obtain ⟨⟨next, left⟩, here, rest⟩ := Option.bind_eq_some_iff.mp performed
      have grows := perform_grows here
      have later := ih rest
      rw [grows.settings] at later
      exact grows.trans later

end Session

namespace Example

/-- A session with notices whose engine keeps the clauses in front of a bad line. -/
def lenient : Session where
  engine := { settings := { ingest := .keepLeading } }
  interactive := true

theorem readLines_bad : Clause.readLines "a(b).\nbad" =
    [.ok (.fact ⟨"a", [.const "b"]⟩), .error (.atLine 2 (.predicate "bad" 3))] := by
  decide +kernel

theorem readLines_good :
    Clause.readLines "c(d)." = [.ok (.fact ⟨"c", [.const "d"]⟩)] := by
  decide +kernel

end Example

namespace Session

open Example (lenient readLines_bad readLines_good)

/--
However a new session is used, its engine has gained the clauses that it counts
as statements and those that rejected texts have left behind.  So the counter is
right exactly as long as no text has left a clause behind, and always is if the
ingest policy keeps nothing.
-/
theorem statements_of_performAll {session after : Session} {calls : List Call}
    (fresh : session.summary = {})
    (performed : session.performAll calls = some after) :
    after.engine.kb.size = session.engine.kb.size + (after.summary.statements +
      (calls.map (·.leftBehind session.engine.settings.ingest)).sum) ∧
    (after.summary.statements = after.engine.kb.size - session.engine.kb.size ↔
      ∀ call ∈ calls, call.leftBehind session.engine.settings.ingest = 0) ∧
    (session.engine.settings.ingest = .allOrNothing →
      after.summary.statements = after.engine.kb.size - session.engine.kb.size) := by
  have size : after.engine.kb.size = session.engine.kb.size +
      (after.summary.statements +
        (calls.map (·.leftBehind session.engine.settings.ingest)).sum) := by
    have grows := (performAll_grows performed).size
    rw [fresh] at grows
    exact grows
  have none_left : (calls.map (·.leftBehind session.engine.settings.ingest)).sum = 0 ↔
      ∀ call ∈ calls, call.leftBehind session.engine.settings.ingest = 0 := by
    rw [List.sum_eq_zero_iff_forall_eq_nat, List.forall_mem_map]
  have right : after.summary.statements =
      after.engine.kb.size - session.engine.kb.size ↔
        ∀ call ∈ calls, call.leftBehind session.engine.settings.ingest = 0 := by
    rw [← none_left]
    omega
  refine ⟨size, right, fun policy => right.mpr fun call _ => ?_⟩
  rw [policy]
  exact call.leftBehind_allOrNothing

/-- A text with a bad line leaves a clause behind that is not counted, and a text
whose notice finds no room is counted all the same. -/
theorem statements_of_performAll_lenient :
    lenient.summary = {} ∧
    ∃ after, lenient.performAll
        [.ingest {} "a(b).\nbad", .ingest { room := some 0 } "c(d)."] =
          some after ∧
      after.summary.statements = 1 ∧
      after.engine.kb.size = after.summary.statements + 1 := by
  have performed : lenient.performAll
      [.ingest {} "a(b).\nbad", .ingest { room := some 0 } "c(d)."] =
        some ((lenient.ingest "a(b).\nbad").1.ingest "c(d).").1 := rfl
  have counted :
      ((lenient.ingest "a(b).\nbad").1.ingest "c(d).").1.summary.statements = 1 := by
    have bad : Statement.collect (Clause.readLines "a(b).\nbad") =
        .error (.atLine 2 (.predicate "bad" 3)) := by rw [readLines_bad]; rfl
    have good : Statement.collect (Clause.readLines "c(d).") =
        .ok [.fact ⟨"c", [.const "d"]⟩] := by rw [readLines_good]; rfl
    rw [ingest_of_ok good, ingest_of_error bad]
    rfl
  obtain ⟨size, _⟩ := statements_of_performAll rfl performed
  refine ⟨rfl, _, performed, counted, size.trans ?_⟩
  simp [Call.leftBehind, IngestPolicy.leftBehind, readLines_bad, readLines_good,
    Statement.collect, Except.map, IngestPolicy.kept, Engine.leading, lenient,
    KnowledgeBase.size]

/-- The counter of statements misses a clause that a rejected text has left. -/
theorem statements_ne_of_lenient : ¬ ∀ (session after : Session) (calls : List Call),
    session.summary = {} → session.performAll calls = some after →
      after.summary.statements =
        after.engine.kb.size - session.engine.kb.size := by
  intro counted
  have right := counted lenient (lenient.ingest "a(b).\nbad").1
    [.ingest {} "a(b).\nbad"] rfl rfl
  rw [ingest_of_error (by rw [readLines_bad]; rfl), readLines_bad] at right
  exact absurd right (by decide)

end Session

end HornLogic
