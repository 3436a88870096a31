import HornLogic.Proofs.Session.Script
import HornLogic.Proofs.Statement.Beginning

/-!
# Questions

A line of a script asks what stands behind its mark.  An engine that is given the
whole line takes the mark off itself, and both read the same query, unless there
is a second mark behind the first.  That one is the engine's to take off when it
is given the text behind the mark, and it is not when it is given the line.
-/

namespace HornLogic

open Text (trim)

/-! ## Marks -/

namespace Statement

theorem readQuery_of_marked {text behind : List Char}
    (marked : trim text = '?' :: '-' :: behind) :
    readQuery text = readPredicate behind := by
  rw [readQuery, marked, dropQueryMark]

theorem readQuery_of_unmarked {text : List Char}
    (unmarked : ∀ behind, trim text ≠ '?' :: '-' :: behind) :
    readQuery text = readPredicate text := by
  rw [readQuery, unmarked_iff.mp (.plain unmarked), readPredicate, Text.trim_trim,
    readPredicate]

theorem readPredicate_of_marked {text behind : List Char} {p : Predicate}
    (marked : trim text = '?' :: '-' :: behind) : readPredicate text ≠ .ok p := by
  intro isRead
  obtain ⟨first, rest, begins, letter⟩ := readPredicate_begins isRead
  rw [marked] at begins
  cases begins
  exact absurd letter (by decide)

end Statement

namespace ScriptLine

theorem classify_eq_query_iff {line text : String} :
    classify line = .query text ↔ ∃ behind,
      trim line.toList = '?' :: '-' :: behind ∧
        text = String.ofList (trim behind) := by
  rw [classify]
  constructor
  · intro isQuery
    unfold ofTrimmed at isQuery
    split at isQuery <;> cases isQuery
    exact ⟨_, by assumption, rfl⟩
  · rintro ⟨behind, marked, rfl⟩
    rw [marked]
    rfl

theorem isQuery_classify_iff {text : String} :
    (classify text).isQuery = true ↔
      ∃ behind, trim text.toList = '?' :: '-' :: behind := by
  constructor
  · intro marked
    cases isLine : classify text with
    | query rest =>
        obtain ⟨behind, split, _⟩ := classify_eq_query_iff.mp isLine
        exact ⟨behind, split⟩
    | _ => rw [isLine] at marked; cases marked
  · rintro ⟨behind, split⟩
    rw [classify_eq_query_iff.mpr ⟨behind, split, rfl⟩]
    rfl

end ScriptLine

/-- The query of a line is the one behind its mark, which has no second mark. -/
theorem Predicate.readQuery_line {line text : String} {query : Predicate}
    (isQuery : ScriptLine.classify line = .query text) :
    Predicate.readQuery line = .ok query ↔
      (ScriptLine.classify text).isQuery = false ∧
        Predicate.readQuery text = .ok query := by
  obtain ⟨behind, marked, rfl⟩ := ScriptLine.classify_eq_query_iff.mp isQuery
  rw [Predicate.readQuery, Predicate.readQuery, Statement.readQuery_of_marked marked]
  cases second : (ScriptLine.classify (String.ofList (trim behind))).isQuery with
  | true =>
      obtain ⟨more, again⟩ := ScriptLine.isQuery_classify_iff.mp second
      rw [String.toList_ofList, Text.trim_trim] at again
      refine iff_of_false (Statement.readPredicate_of_marked again) ?_
      rintro ⟨single, _⟩
      cases single
  | false =>
      have unmarked : ∀ more, trim (String.ofList (trim behind)).toList ≠
          '?' :: '-' :: more := by
        intro more again
        rw [ScriptLine.isQuery_classify_iff.mpr ⟨more, again⟩] at second
        cases second
      rw [Statement.readQuery_of_unmarked unmarked, String.toList_ofList,
        Statement.readPredicate, Statement.readPredicate, Text.trim_trim]
      exact (and_iff_right rfl).symm

/-! ## Answers -/

/-- An engine accepts a line if it accepts what stands behind the mark, and no
second mark stands there. -/
theorem Engine.ask_line {line text : String}
    (isQuery : ScriptLine.classify line = .query text) (engine : Engine)
    (outcome : Resolution) :
    engine.ask line = some (.ok outcome) ↔
      (ScriptLine.classify text).isQuery = false ∧
        engine.ask text = some (.ok outcome) := by
  simp only [ask_eq_ok_iff, Predicate.readQuery_line isQuery, and_assoc,
    exists_and_left]

namespace Session

def answered (session : Session) (outcome : Resolution) : Session :=
  { session with
    summary.queries := session.summary.queries + 1
    summary.solutions := session.summary.solutions + outcome.solutions.length }

theorem query_of_ok {text : String} {session : Session} {outcome : Resolution}
    (answer : session.engine.ask text = some (.ok outcome)) :
    session.query text = some (session.answered outcome,
      ⟨true, resolutionText session.format session.trace outcome⟩) := by
  rw [query, answer]
  rfl

theorem query_of_error {text : String} {session : Session} {fault : Fault}
    (answer : session.engine.ask text = some (.error fault)) :
    session.query text = some
      ({ session with
          summary.queries := session.summary.queries + 1
          summary.errors := session.summary.errors + 1 },
        ⟨false, faultText session.format fault⟩) := by
  rw [query, answer]
  rfl

/-- A query counts no error exactly if the engine accepts it. -/
theorem query_accepts_iff {text : String} {session : Session} :
    (∃ after reply, session.query text = some (after, reply) ∧
      after.summary.errors = session.summary.errors) ↔
      ∃ outcome, session.engine.ask text = some (.ok outcome) := by
  constructor
  · rintro ⟨after, reply, replied, uncounted⟩
    obtain ⟨outcome, answer, _⟩ := Option.map_eq_some_iff.mp replied
    change session.engine.ask text = some outcome at answer
    cases outcome with
    | ok outcome => exact ⟨outcome, answer⟩
    | error fault =>
        rw [query_of_error answer] at replied
        cases replied
        exact absurd uncounted (Nat.succ_ne_self _)
  · rintro ⟨outcome, answer⟩
    exact ⟨_, _, query_of_ok answer, rfl⟩

end Session

namespace Example

def inquiring : Session where
  engine := { kb := ⟨[.fact ⟨"p", [.const "a"]⟩]⟩ }

theorem classify_single : ScriptLine.classify "?- p(X)." = .query "p(X)." :=
  rfl

theorem classify_double : ScriptLine.classify "?- ?- p(X)." = .query "?- p(X)." :=
  rfl

theorem ask_inquiring : ∃ outcome,
    inquiring.engine.ask "?- p(X)." = some (.ok outcome) ∧
      outcome.solutions = [⟨"p", [.const "a"]⟩] := by
  have isRead : Predicate.readQuery "?- p(X)." = .ok ⟨"p", [.var ⟨"X"⟩]⟩ := by
    decide +kernel
  have found : (inquiring.engine.resolve ⟨"p", [.var ⟨"X"⟩]⟩).map (·.solutions) =
      some [⟨"p", [.const "a"]⟩] :=
    rfl
  obtain ⟨outcome, resolved, solutions⟩ := Option.map_eq_some_iff.mp found
  exact ⟨outcome, Engine.ask_eq_ok_iff.mpr ⟨_, isRead, resolved⟩, solutions⟩

end Example

namespace Session

open Example (inquiring ask_inquiring classify_single classify_double)

/--
A session accepts a query line exactly if its engine accepts the whole line, or
if there is a second mark behind the first and the engine accepts the text from
the second mark on.  The answer is the one of the engine either way, but a line
with a second mark is not accepted by the engine.
-/
theorem execute_accepts_iff {line text : String}
    (isQuery : ScriptLine.classify line = .query text) (session : Session) :
    ((∃ after reply, session.execute line = some (after, reply) ∧
        after.summary.errors = session.summary.errors) ↔
      (∃ outcome, session.engine.ask line = some (.ok outcome)) ∨
        (ScriptLine.classify text).isQuery = true ∧
          ∃ outcome, session.engine.ask text = some (.ok outcome)) ∧
    (∀ outcome, session.engine.ask line = some (.ok outcome) ∨
        (ScriptLine.classify text).isQuery = true ∧
          session.engine.ask text = some (.ok outcome) →
      session.execute line = some (session.answered outcome,
        ⟨true, resolutionText session.format session.trace outcome⟩)) ∧
    ((ScriptLine.classify text).isQuery = true →
      ∀ outcome, session.engine.ask line ≠ some (.ok outcome)) := by
  have executed : session.execute line = session.query text := by
    rw [execute, isQuery]
  have asked := fun outcome => Engine.ask_line isQuery session.engine outcome
  rw [executed, query_accepts_iff]
  simp only [asked]
  refine ⟨?_, ?_, ?_⟩
  · cases (ScriptLine.classify text).isQuery <;> simp
  · rintro outcome (⟨_, answer⟩ | ⟨_, answer⟩) <;> exact query_of_ok answer
  · intro second outcome accepted
    obtain ⟨single, _⟩ := (asked outcome).mp accepted
    rw [second] at single
    cases single

/-- A line with two marks has the answer of the line with one of them. -/
theorem execute_accepts_iff_inquiring :
    ScriptLine.classify "?- p(X)." = .query "p(X)." ∧
    ScriptLine.classify "?- ?- p(X)." = .query "?- p(X)." ∧
    ∃ outcome, inquiring.engine.ask "?- p(X)." = some (.ok outcome) ∧
      outcome.solutions = [⟨"p", [.const "a"]⟩] ∧
      inquiring.execute "?- p(X)." = some (inquiring.answered outcome,
        ⟨true, resolutionText .text false outcome⟩) ∧
      inquiring.execute "?- ?- p(X)." = some (inquiring.answered outcome,
        ⟨true, resolutionText .text false outcome⟩) ∧
      inquiring.engine.ask "?- ?- p(X)." ≠ some (.ok outcome) := by
  obtain ⟨outcome, answer, solutions⟩ := ask_inquiring
  obtain ⟨_, once, _⟩ := execute_accepts_iff classify_single inquiring
  obtain ⟨_, twice, refused⟩ := execute_accepts_iff classify_double inquiring
  have marked : (ScriptLine.classify "?- p(X).").isQuery = true := by
    rw [classify_single]
    rfl
  exact ⟨classify_single, classify_double, outcome, answer, solutions, once outcome (.inl answer),
    twice outcome (.inr ⟨marked, answer⟩), refused marked outcome⟩

/-- A session accepts a line with two marks that its engine does not accept. -/
theorem execute_accepts_second_mark : ¬ ∀ (session : Session) (line text : String),
    ScriptLine.classify line = .query text →
      ((∃ after reply, session.execute line = some (after, reply) ∧
          after.summary.errors = session.summary.errors) ↔
        ∃ outcome, session.engine.ask line = some (.ok outcome)) := by
  intro same
  have executed : inquiring.execute "?- ?- p(X)." = inquiring.query "?- p(X)." := by
    rw [execute, classify_double]
  obtain ⟨outcome, answer, _⟩ := ask_inquiring
  obtain ⟨outcome, accepted⟩ := (same inquiring _ _ classify_double).mp
    ⟨_, _, executed.trans (query_of_ok answer), rfl⟩
  -- the engine takes off one mark, and what is left begins with the other
  obtain ⟨unmarked, _⟩ :=
    (Engine.ask_line classify_double inquiring.engine outcome).mp accepted
  rw [classify_single] at unmarked
  cases unmarked

end Session

end HornLogic
