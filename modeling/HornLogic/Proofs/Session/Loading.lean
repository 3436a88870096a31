import HornLogic.Proofs.Session.Counters
import HornLogic.Proofs.Session.Script
import HornLogic.Proofs.Statement.Beginning

/-!
# Loading

A text is added as a whole, or it is run as a script.  Both cut it into the same
lines and skip the same ones, and a line that can be read as a clause is neither a
comment nor a query.  So a text that is accepted as a whole leaves the session
that its run leaves, and a run that counts no error is accepted as a whole if
there is nothing but knowledge in it.
-/

namespace HornLogic

open Text (allBlank trim)

namespace ScriptLine

/-- A blank line, or knowledge that can be read. -/
def Loads (line : ScriptLine) : Prop :=
  line = .blank ∨ ∃ clause, line.clause? = some clause

theorem loads_iff {line : ScriptLine} :
    line.Loads ↔
      line ≠ .comment ∧ line.isQuery = false ∧ line.isRejected = false := by
  cases line with
  | blank => simp [Loads, isQuery, isRejected]
  | comment => simp [Loads, clause?]
  | query text => simp [Loads, clause?, isQuery]
  | knowledge text =>
      cases isRead : Clause.read text <;>
        simp [Loads, clause?, isQuery, isRejected, isRead, Except.toOption,
          Except.isOk, Except.toBool]

theorem classify_eq_blank_iff {line : List Char} :
    classify (String.ofList line) = .blank ↔ allBlank line = true := by
  rw [classify, String.toList_ofList, ← Text.trim_eq_nil_iff]
  constructor
  · intro isBlank
    unfold ofTrimmed at isBlank
    split at isBlank <;> first | assumption | cases isBlank
  · intro blank
    rw [blank]
    rfl

/-- What begins with a letter of a word is knowledge. -/
theorem ofTrimmed_of_wordChar {first : Char} {rest : List Char}
    (letter : Statement.WordChar first) :
    ofTrimmed (first :: rest) = .knowledge (String.ofList (first :: rest)) := by
  unfold ofTrimmed
  split
  · rename_i nothing
    cases nothing
  · rename_i comment
    cases comment
    exact absurd letter (by decide)
  · rename_i query
    cases query
    exact absurd letter (by decide)
  · rfl

/-- The clause of a line is what the line is read as. -/
theorem clause?_classify {line : List Char} {clause : Clause} :
    (classify (String.ofList line)).clause? = some clause ↔
      Statement.readClause line = .ok clause := by
  have trimmed : Statement.readClause (trim line) = Statement.readClause line := by
    rw [Statement.readClause, Statement.readClause, Text.trim_trim]
  constructor
  · intro isRead
    cases isLine : classify (String.ofList line) with
    | knowledge text =>
        obtain ⟨same, _⟩ := toList_of_classify isLine
        rw [String.toList_ofList] at same
        rw [isLine, clause?, Clause.read, same, trimmed] at isRead
        cases result : Statement.readClause line with
        | ok read =>
            rw [result] at isRead
            rw [Option.some.inj isRead]
        | error rejection =>
            rw [result] at isRead
            cases isRead
    | _ => rw [isLine] at isRead; cases isRead
  · intro isRead
    obtain ⟨first, rest, begins, letter⟩ := Statement.readClause_begins isRead
    rw [classify, String.toList_ofList, begins, ofTrimmed_of_wordChar letter, clause?,
      Clause.read, String.toList_ofList, ← begins, trimmed, isRead]
    rfl

end ScriptLine

/-- A text is read as a whole exactly if all of its lines are blank or are read,
and its clauses are those of the lines. -/
theorem Statement.collect_readLines_iff {text : String} {clauses : List Clause} :
    collect (Clause.readLines text) = .ok clauses ↔
      (∀ line ∈ ScriptLine.ofScript text, line.Loads) ∧
        (ScriptLine.ofScript text).filterMap ScriptLine.clause? = clauses := by
  rw [ScriptLine.ofScript, Text.linesOf, List.map_map]
  refine readKnowledge_iff.trans ?_
  generalize Text.lines text.toList = lines
  induction lines generalizing clauses with
  | nil =>
      rw [List.filter_nil, List.forall₂_nil_left_iff]
      exact ⟨fun none => ⟨List.forall_mem_nil _, none.symm⟩, fun both => both.2.symm⟩
  | cons line lines ih =>
      rw [List.map_cons, List.forall_mem_cons, Function.comp_apply]
      cases blank : allBlank line with
      | true =>
          rw [ScriptLine.classify_eq_blank_iff.mpr blank,
            List.filter_cons_of_neg (by simp [blank]), ih]
          exact and_congr_left' (iff_and_self.mpr fun _ => .inl rfl)
      | false =>
          rw [List.filter_cons_of_pos (by simp [blank]), List.forall₂_cons_left_iff]
          constructor
          · rintro ⟨clause, others, isRead, rest, rfl⟩
            obtain ⟨loads, same⟩ := ih.mp rest
            rw [← ScriptLine.clause?_classify] at isRead
            refine ⟨⟨.inr ⟨clause, isRead⟩, loads⟩, ?_⟩
            rw [List.filterMap_cons_some isRead, same]
          · rintro ⟨⟨isBlank | ⟨clause, isRead⟩, loads⟩, same⟩
            · rw [ScriptLine.classify_eq_blank_iff, blank] at isBlank
              cases isBlank
            · rw [List.filterMap_cons_some isRead] at same
              exact ⟨clause, _, ScriptLine.clause?_classify.mp isRead,
                ih.mpr ⟨loads, rfl⟩, same.symm⟩

namespace Session

open Summary (tally)

theorem ingest_accepted_iff {session : Session} {text : String} :
    (session.ingest text).2.accepted = true ↔
      ∃ clauses, Statement.collect (Clause.readLines text) = .ok clauses := by
  cases collected : Statement.collect (Clause.readLines text) with
  | ok clauses =>
      rw [ingest_of_ok collected]
      exact iff_of_true rfl ⟨clauses, rfl⟩
  | error rejection =>
      rw [ingest_of_error collected]
      refine iff_of_false Bool.false_ne_true ?_
      rintro ⟨clauses, same⟩
      cases same

/-- Lines that load have their turns, and no solution is found in them. -/
theorem exists_turns_of_loads {lines : List ScriptLine}
    (loads : ∀ line ∈ lines, line.Loads) (session : Session) :
    ∃ turns, session.turns lines = some turns ∧
      (turns.map Turn.solutions).sum = 0 := by
  induction lines generalizing session with
  | nil => exact ⟨[], rfl, rfl⟩
  | cons line lines ih =>
      obtain ⟨here, others⟩ := List.forall_mem_cons.mp loads
      obtain ⟨later, taken, unsolved⟩ := ih others (session.knowing [line])
      have first : ∃ turn, session.turn line = some turn ∧ turn.solutions = 0 := by
        rcases here with rfl | ⟨clause, isRead⟩
        · exact ⟨{}, rfl, rfl⟩
        · cases line with
          | knowledge text =>
              rw [turn]
              cases Clause.read text <;> exact ⟨_, rfl, rfl⟩
          | _ => cases isRead
      obtain ⟨turn, taken', none⟩ := first
      refine ⟨turn :: later, ?_, ?_⟩
      · rw [turns, taken']
        simp [taken]
      · rw [List.map_cons, List.sum_cons, none, unsolved]

/-- What lines that load are counted as. -/
theorem tally_of_loads {lines : List ScriptLine} {turns : List Turn}
    (loads : ∀ line ∈ lines, line.Loads)
    (unsolved : (turns.map Turn.solutions).sum = 0) :
    tally lines turns =
      { statements := (lines.filterMap ScriptLine.clause?).length } := by
  have unasked : lines.countP ScriptLine.isQuery = 0 :=
    List.countP_eq_zero.mpr fun line member => by
      simp [(ScriptLine.loads_iff.mp (loads line member)).2.1]
  have unrejected : lines.countP ScriptLine.isRejected = 0 :=
    List.countP_eq_zero.mpr fun line member => by
      simp [(ScriptLine.loads_iff.mp (loads line member)).2.2]
  rw [tally, unasked, unrejected, unsolved]

/-- A text whose lines load is run to its end, and it leaves what it leaves when
it is added as a whole. -/
theorem runScript_of_loads {text : String} {sink : Sink} (unlimited : sink.room = none)
    (loads : ∀ line ∈ ScriptLine.ofScript text, line.Loads) (session : Session) :
    ∃ left grown,
      session.runScript sink text = some ((session.ingest text).1, left, .ok grown) ∧
        grown.errors = 0 ∧ grown.queries = 0 := by
  obtain ⟨turns, taken, unsolved⟩ := exists_turns_of_loads loads session
  have counted := tally_of_loads loads unsolved
  have added := ingest_of_ok (Statement.collect_readLines_iff.mpr ⟨loads, rfl⟩) session
  refine ⟨sink.extend turns, tally (ScriptLine.ofScript text) turns, ?_, ?_⟩
  · rw [runScript_eq unlimited, outcome, taken, Option.map_some, added, after, counted]
    rfl
  · rw [counted]
    exact ⟨rfl, rfl⟩

end Session

namespace Example

def ragged : String :=
  "p(a).\r\n \n\tq(X) :- p(X)"

theorem ofScript_ragged : ScriptLine.ofScript ragged =
    [.knowledge "p(a).", .blank, .knowledge "q(X) :- p(X)"] :=
  rfl

theorem ingest_ragged :
    (({} : Session).ingest ragged).2.accepted = true ∧
      (({} : Session).ingest ragged).1.summary.statements = 2 := by
  decide +kernel

end Example

namespace Session

open Example (ragged ofScript_ragged ingest_ragged)

/--
A text that is accepted as a whole is run as a script without a query and without
an error.  A text in which no line is a comment or a query is run to its end, and
it is accepted as a whole if the run counts no error.  Both ways the session is
left the same, under either ingest policy.
-/
theorem ingest_agrees_run (session : Session) {sink : Sink}
    (unlimited : sink.room = none) (text : String) :
    ((session.ingest text).2.accepted = true → ∃ left grown,
      session.runScript sink text = some ((session.ingest text).1, left, .ok grown) ∧
        grown.errors = 0 ∧ grown.queries = 0) ∧
    ((∀ line ∈ ScriptLine.ofScript text,
        line ≠ .comment ∧ line.isQuery = false) →
      ∃ after left grown,
        session.runScript sink text = some (after, left, .ok grown) ∧
          (grown.errors = 0 → (session.ingest text).2.accepted = true ∧
            (session.ingest text).1 = after)) := by
  constructor
  · intro accepted
    obtain ⟨clauses, collected⟩ := ingest_accepted_iff.mp accepted
    obtain ⟨loads, _⟩ := Statement.collect_readLines_iff.mp collected
    exact runScript_of_loads unlimited loads session
  · intro plain
    have ends : ∀ before question later,
        ScriptLine.ofScript text = before ++ .query question :: later →
          (session.knowing before).engine.ask question ≠ none := by
      intro before question later split
      have member : .query question ∈ ScriptLine.ofScript text := by simp [split]
      cases (plain _ member).2
    obtain ⟨turns, taken⟩ := exists_turns ends
    refine ⟨_, _, _, by rw [runScript_eq unlimited, outcome, taken, Option.map_some], ?_⟩
    intro unrejected
    have loads : ∀ line ∈ ScriptLine.ofScript text, line.Loads := by
      intro line member
      obtain ⟨noComment, unasked⟩ := plain line member
      have isRead := List.countP_eq_zero.mp unrejected line member
      exact ScriptLine.loads_iff.mpr ⟨noComment, unasked, by simpa using isRead⟩
    obtain ⟨left, grown, ran, _⟩ := runScript_of_loads unlimited loads session
    rw [runScript_eq unlimited, outcome, taken, Option.map_some] at ran
    exact ⟨ingest_accepted_iff.mpr
      ⟨_, Statement.collect_readLines_iff.mpr ⟨loads, rfl⟩⟩,
      (congrArg Prod.fst (Option.some.inj ran)).symm⟩

/-- Two clauses are added as a whole, and running their lines adds them too. -/
theorem ingest_agrees_run_ragged :
    ({} : Sink).room = none ∧
    (({} : Session).ingest ragged).2.accepted = true ∧
    (∀ line ∈ ScriptLine.ofScript ragged,
      line ≠ .comment ∧ line.isQuery = false) ∧
    ∃ after left grown,
      ({} : Session).runScript {} ragged = some (after, left, .ok grown) ∧
      grown.errors = 0 ∧ grown.queries = 0 ∧
      (({} : Session).ingest ragged).1 = after ∧ after.summary.statements = 2 := by
  obtain ⟨accepted, counted⟩ := ingest_ragged
  have plain : ∀ line ∈ ScriptLine.ofScript ragged,
      line ≠ .comment ∧ line.isQuery = false := by
    rw [ofScript_ragged]
    decide
  obtain ⟨whole, single⟩ :=
    ingest_agrees_run {} (show ({} : Sink).room = none from rfl) ragged
  obtain ⟨left, grown, ran, unrejected, unasked⟩ := whole accepted
  obtain ⟨after, _, _, ran', agrees⟩ := single plain
  obtain ⟨_, same⟩ := agrees (by rw [ran] at ran'; cases ran'; exact unrejected)
  rw [same] at ran counted
  exact ⟨rfl, accepted, plain, after, left, grown, ran, unrejected, unasked, same,
    counted⟩

end Session

end HornLogic
