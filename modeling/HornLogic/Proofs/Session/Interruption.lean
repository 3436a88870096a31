import HornLogic.Proofs.Session.Script

/-!
# Interrupted runs

A run is interrupted by a sink that has no room left and by a line that is not
well-formed.  What has been written by then is a beginning of what is written to a
sink without a limit, to the byte.  The session is left as it is after the last
line that was begun, whose changes are made before its output is written, and no
later line has been executed.
-/

namespace HornLogic

/-! ## Sinks with limited room -/

namespace Sink

/-- A sink to which some bytes have been written, as far as there is room. -/
def pour (sink : Sink) (bytes : List UInt8) : Sink :=
  match sink.room with
  | none => { sink with written := sink.written ++ bytes }
  | some room =>
      { written := sink.written ++ bytes.take room
        room := some (room - bytes.length) }

def Holds (sink : Sink) (bytes : List UInt8) : Prop :=
  ∀ room ∈ sink.room, bytes.length ≤ room

variable {sink : Sink} {first second : List UInt8} {text : String}

theorem write_of_holds (holds : sink.Holds (bytesOf text)) :
    sink.write text = (sink.pour (bytesOf text), .ok ()) := by
  unfold write pour
  cases limit : sink.room with
  | none => rfl
  | some room => simp only [if_pos (holds room limit)]

theorem write_of_not_holds (overflows : ¬ sink.Holds (bytesOf text)) :
    sink.write text = (sink.pour (bytesOf text), .error full) := by
  unfold write pour
  cases limit : sink.room with
  | none => exact absurd (fun room isRoom => by simp [limit] at isRoom) overflows
  | some room =>
      have little : ¬ (bytesOf text).length ≤ room := fun enough =>
        overflows fun room' isRoom => by
          cases limit.symm.trans isRoom
          exact enough
      simp only [if_neg little]

theorem holds_nil : sink.Holds [] :=
  fun _ _ => Nat.zero_le _

theorem pour_nil : sink.pour [] = sink := by
  obtain ⟨written, room⟩ := sink
  cases room <;> simp [pour]

/-- Bytes are poured in as many pieces as one likes, even if there is no room. -/
theorem pour_append : (sink.pour first).pour second = sink.pour (first ++ second) := by
  obtain ⟨written, room⟩ := sink
  cases room <;> simp [pour, List.take_append, Nat.sub_sub]

theorem holds_append_iff :
    sink.Holds (first ++ second) ↔
      sink.Holds first ∧ (sink.pour first).Holds second := by
  obtain ⟨written, room⟩ := sink
  cases room with
  | none => simp [Holds, pour]
  | some room =>
      simp only [Holds, pour, Option.mem_some_iff, forall_eq', List.length_append]
      omega

/-- Nothing is written any more when there was no room. -/
theorem pour_of_not_holds (overflows : ¬ sink.Holds first) :
    sink.pour (first ++ second) = sink.pour first := by
  obtain ⟨written, room⟩ := sink
  cases room with
  | none => exact absurd (fun room isRoom => by cases isRoom) overflows
  | some room =>
      have little : room < first.length := by
        simpa [Holds] using overflows
      have cut : (first ++ second).take room = first.take room :=
        List.take_append_of_le_length (Nat.le_of_lt little)
      simp only [pour, cut, List.length_append]
      congr 2
      omega

theorem holds_of_unlimited (unlimited : sink.room = none) : sink.Holds first := by
  intro room isRoom
  rw [unlimited] at isRoom
  cases isRoom

theorem holds_unlimited {written : List UInt8} :
    Holds { written := written } first :=
  holds_of_unlimited rfl

/-- What is written takes no room away from what is written later. -/
theorem room_pour_of_unlimited (unlimited : sink.room = none) :
    (sink.pour first).room = none := by
  rw [pour, unlimited]

theorem holds_limited_iff {written : List UInt8} {room : Nat} :
    Holds { written := written, room := some room } first ↔ first.length ≤ room := by
  simp [Holds]

theorem pour_limited_of_le {written : List UInt8} {room : Nat}
    (enough : first.length ≤ room) :
    pour { written := written, room := some room } first =
      { written := written ++ first, room := some (room - first.length) } := by
  simp only [pour, List.take_of_length_le enough]

theorem pour_limited_of_lt {written : List UInt8} {room : Nat}
    (little : room < first.length) :
    pour { written := written, room := some room } first =
      { written := written ++ first.take room, room := some 0 } := by
  simp only [pour, Nat.sub_eq_zero_of_le (Nat.le_of_lt little)]

/-- It does not matter in how many pieces a text is written. -/
theorem write_append (sink : Sink) (front back : String) :
    sink.write (front ++ back) =
      match sink.write front with
      | (sink, .ok ()) => sink.write back
      | (sink, .error fault) => (sink, .error fault) := by
  have bytes := bytesOf_append front back
  by_cases fits : sink.Holds (bytesOf front)
  · rw [write_of_holds fits]
    by_cases both : (sink.pour (bytesOf front)).Holds (bytesOf back)
    · have whole := holds_append_iff.mpr ⟨fits, both⟩
      rw [← bytes] at whole
      simp only [write_of_holds whole, write_of_holds both, pour_append, bytes]
    · have whole : ¬ sink.Holds (bytesOf (front ++ back)) := fun whole =>
        both (holds_append_iff.mp (bytes ▸ whole)).2
      simp only [write_of_not_holds whole, write_of_not_holds both, pour_append, bytes]
  · have whole : ¬ sink.Holds (bytesOf (front ++ back)) := fun whole =>
      fits (holds_append_iff.mp (bytes ▸ whole)).1
    simp only [write_of_not_holds whole, write_of_not_holds fits, bytes,
      pour_of_not_holds fits]

end Sink

open Sink (bytesOf)

namespace Session

/-! ## Runs into a sink -/

/-- Lines that are executed one after the other, with the session that they leave
and the bytes of their replies. -/
inductive Plays : Session → List String → Session → List UInt8 → Prop where
  | nil (session : Session) : Plays session [] session []
  | cons {session next after : Session} {line : String} {reply : Reply}
      {lines : List String} {output : List UInt8}
      (here : session.execute line = some (next, reply))
      (rest : Plays next lines after output) :
      Plays session (line :: lines) after (bytesOf reply.output ++ output)

section Steps

variable {session next after : Session} {sink : Sink} {line : String}
  {reply : Reply} {lines : List String} {output : List UInt8}

theorem executeAll_cons_of_holds (here : session.execute line = some (next, reply))
    (fits : sink.Holds (bytesOf reply.output)) (rest : List (Option String)) :
    session.executeAll sink (some line :: rest) =
      next.executeAll (sink.pour (bytesOf reply.output)) rest := by
  rw [executeAll, here]
  simp only [Option.bind_eq_bind, Option.bind_some, Sink.write_of_holds fits]

theorem executeAll_cons_of_not_holds
    (here : session.execute line = some (next, reply))
    (overflows : ¬ sink.Holds (bytesOf reply.output))
    (rest : List (Option String)) :
    session.executeAll sink (some line :: rest) =
      some (next, sink.pour (bytesOf reply.output), .error Sink.full) := by
  rw [executeAll, here]
  simp only [Option.bind_eq_bind, Option.bind_some, Sink.write_of_not_holds overflows]

/-- A run goes on behind lines for whose output there is room. -/
theorem Plays.executeAll (plays : session.Plays lines after output)
    (fits : sink.Holds output) (rest : List (Option String)) :
    session.executeAll sink (lines.map some ++ rest) =
      after.executeAll (sink.pour output) rest := by
  induction plays generalizing sink with
  | nil session => rw [Sink.pour_nil, List.map_nil, List.nil_append]
  | cons here _ ih =>
      obtain ⟨first, others⟩ := Sink.holds_append_iff.mp fits
      rw [List.map_cons, List.cons_append, executeAll_cons_of_holds here first,
        ih others, Sink.pour_append]

/-- A run ends at the first line whose output makes the whole too long. -/
theorem Plays.overflow (plays : session.Plays lines after output)
    (overflows : ¬ sink.Holds output) :
    ∃ front last back before stopped early late,
      lines = front ++ last :: back ∧
      session.Plays front before early ∧ sink.Holds early ∧
      session.Plays (front ++ [last]) stopped late ∧ ¬ sink.Holds late ∧
      session.executeAll sink (lines.map some) =
        some (stopped, sink.pour output, .error Sink.full) := by
  induction plays generalizing sink with
  | nil session => exact absurd Sink.holds_nil overflows
  | @cons session next after line reply lines output here rest ih =>
      by_cases fits : sink.Holds (bytesOf reply.output)
      · -- the line is written whole, and the run goes on with the room that is left
        obtain ⟨front, last, back, before, stopped, early, late, split, begun, room,
          ended, full, ran⟩ := ih fun others =>
            overflows (Sink.holds_append_iff.mpr ⟨fits, others⟩)
        refine ⟨line :: front, last, back, before, stopped, _, _, ?_, .cons here begun,
          Sink.holds_append_iff.mpr ⟨fits, room⟩, .cons here ended, ?_, ?_⟩
        · rw [split, List.cons_append]
        · exact fun whole => full (Sink.holds_append_iff.mp whole).2
        · rw [List.map_cons, executeAll_cons_of_holds here fits, ran, Sink.pour_append]
      · refine ⟨[], line, lines, session, next, [], _, rfl, .nil session,
          Sink.holds_nil, .cons here (.nil next), ?_, ?_⟩
        · rwa [List.append_nil]
        · rw [List.map_cons, executeAll_cons_of_not_holds here fits,
            Sink.pour_of_not_holds fits]

/-- Into a sink that has room for all of their output, lines are run to their
end. -/
theorem Plays.run (plays : session.Plays lines after output)
    (fits : sink.Holds output) :
    session.run sink (lines.map some) =
      some (after, sink.pour output, .ok (after.summary.since session.summary)) := by
  have played := plays.executeAll fits []
  rw [List.append_nil] at played
  rw [Session.run, played]
  rfl

/-- A run ends at a line that is not well-formed. -/
theorem Plays.run_badEncoding (plays : session.Plays lines after output)
    (fits : sink.Holds output) (back : List (Option String)) :
    session.run sink (lines.map some ++ none :: back) =
      some (after, sink.pour output, .error badEncoding) := by
  rw [Session.run, plays.executeAll fits]
  rfl

/-- Lines that have their turns can be executed one after the other. -/
theorem exists_plays {turns : List Turn} (noFeed : ∀ line ∈ lines, '\n' ∉ line.toList)
    (taken : session.turns (lines.map ScriptLine.classify) = some turns) :
    ∃ after output, session.Plays lines after output := by
  induction lines generalizing session turns with
  | nil => exact ⟨session, [], .nil session⟩
  | cons line lines ih =>
      obtain ⟨noFeed, others⟩ := List.forall_mem_cons.mp noFeed
      obtain ⟨turn, first, rest⟩ := Option.bind_eq_some_iff.mp taken
      obtain ⟨later, taken, _⟩ := Option.bind_eq_some_iff.mp rest
      have here := execute_line noFeed session
      rw [first, Option.map_some, take] at here
      rw [← turns_after session [ScriptLine.classify line] [turn]] at taken
      obtain ⟨after, output, plays⟩ := ih others taken
      exact ⟨after, _, .cons here plays⟩

end Steps

/-- The search for every query of some lines ends, on the clauses of the lines
before it. -/
def Terminates (session : Session) (lines : List ScriptLine) : Prop :=
  ∀ before text later, lines = before ++ .query text :: later →
    (session.knowing before).engine.ask text ≠ none

theorem Terminates.front {session : Session} {front back : List ScriptLine}
    (ends : session.Terminates (front ++ back)) : session.Terminates front := by
  intro before text later split
  exact ends before text (later ++ back)
    (by rw [split, List.append_assoc, List.cons_append])

/-- Behind some lines, a run without a limit goes on with this session, having
written this output. -/
def Passes (session : Session) (lines : List String) (after : Session)
    (output : List UInt8) : Prop :=
  ∀ written rest,
    session.executeAll { written := written } (lines.map some ++ rest) =
      after.executeAll { written := written ++ output } rest

section Limits

variable {session after : Session} {lines : List String} {output : List UInt8}

theorem Plays.passes (plays : session.Plays lines after output) :
    session.Passes lines after output := fun _ rest =>
  plays.executeAll Sink.holds_unlimited rest

theorem exists_plays_of_terminates (noFeed : ∀ line ∈ lines, '\n' ∉ line.toList)
    (ends : session.Terminates (lines.map ScriptLine.classify)) :
    ∃ after output, session.Plays lines after output := by
  obtain ⟨turns, taken⟩ := exists_turns ends
  exact exists_plays noFeed taken

/-- In front of the first line without a text there are lines with one. -/
theorem exists_first_none {lines : List (Option String)} (bad : none ∈ lines) :
    ∃ (front : List String) (back : List (Option String)),
      lines = front.map some ++ none :: back := by
  induction lines with
  | nil => cases bad
  | cons line lines ih =>
      cases line with
      | none => exact ⟨[], lines, rfl⟩
      | some line =>
          have later : none ∈ lines := by simpa using bad
          obtain ⟨front, back, rfl⟩ := ih later
          exact ⟨line :: front, back, rfl⟩

end Limits

end Session

namespace Example

/-- A clause, a question that it answers, and one more clause. -/
def assent : String :=
  "p(a).\n?- p(X).\nq(b)."

theorem ofScript_assent : ScriptLine.ofScript assent =
    [.knowledge "p(a).", .query "p(X).", .knowledge "q(b)."] :=
  rfl

theorem terminates_assent :
    ({} : Session).Terminates (ScriptLine.ofScript assent) := by
  have answered : ((({} : Session).knowing [.knowledge "p(a)."]).engine.ask
      "p(X).").isSome = true := by
    decide +kernel
  intro before text later split
  rw [ofScript_assent] at split
  rcases before with _ | ⟨first, _ | ⟨second, _ | ⟨third, before⟩⟩⟩ <;>
    simp at split
  obtain ⟨rfl, rfl, _⟩ := split
  exact Option.isSome_iff_ne_none.mp answered

theorem output_assent :
    (({} : Session).runScript {} assent).map (fun ran => ran.2.1.written) =
      some (Sink.bytesOf "Results:\np(a)\n") := by
  decide +kernel

/-- The same lines as bytes, the last one behind a line that is not well-formed. -/
def torn : List UInt8 :=
  Sink.bytesOf "p(a).\n?- p(X).\n" ++ [255, 10] ++ Sink.bytesOf "q(b)."

theorem linesOfBytes_torn :
    Text.linesOfBytes torn = [some "p(a).", some "?- p(X).", none, some "q(b)."] :=
  rfl

theorem output_torn :
    (({} : Session).run {} (Text.linesOfBytes torn)).map (fun ran => ran.2.1.written) =
      some (Sink.bytesOf "Results:\np(a)\n") := by
  decide +kernel

end Example

namespace Session

open Example

/--
A run into a sink with limited room agrees with the run into a sink without a
limit as long as there is room for all of the output.  Otherwise it fails at the
first line whose output makes the whole too long: the room is filled with the
beginning of the whole output, and the session is the one that goes on behind that
line.  A run of bytes fails at the first line that is not well-formed UTF-8, with
the session and the output of the lines before it.
-/
theorem run_interrupted (session : Session) (written : List UInt8) (room : Nat) :
    (∀ script : String, session.Terminates (ScriptLine.ofScript script) →
      ∃ whole output,
        session.runScript { written := written } script =
          some (whole, { written := written ++ output },
            .ok (whole.summary.since session.summary)) ∧
        (output.length ≤ room →
          session.runScript { written := written, room := some room } script =
            some (whole,
              { written := written ++ output, room := some (room - output.length) },
              .ok (whole.summary.since session.summary))) ∧
        (room < output.length →
          ∃ front last back before stopped early late,
            Text.linesOf script = front ++ last :: back ∧
            session.Passes front before early ∧ early.length ≤ room ∧
            session.Passes (front ++ [last]) stopped late ∧ room < late.length ∧
            session.runScript { written := written, room := some room } script =
              some (stopped, { written := written ++ output.take room, room := some 0 },
                .error Sink.full))) ∧
    (∀ input : List UInt8, none ∈ Text.linesOfBytes input →
      ∃ front back, Text.linesOfBytes input = front.map some ++ none :: back ∧
        (session.Terminates (front.map ScriptLine.classify) →
          ∃ before output, session.Passes front before output ∧
            session.run { written := written } (Text.linesOfBytes input) =
              some (before, { written := written ++ output }, .error badEncoding) ∧
            (output.length ≤ room →
              session.run { written := written, room := some room }
                  (Text.linesOfBytes input) =
                some (before,
                  { written := written ++ output
                    room := some (room - output.length) },
                  .error badEncoding)))) ∧
    Sink.full.code = .ioError ∧ badEncoding.code = .ioError := by
  refine ⟨fun script ends => ?_, fun input bad => ?_, rfl, rfl⟩
  · obtain ⟨whole, output, plays⟩ := exists_plays_of_terminates
      (fun _ => Text.lineFeed_not_mem_linesOf) ends
    rw [runScript, runScript, Text.linesOfBytes_bytesOf]
    refine ⟨whole, output, plays.run Sink.holds_unlimited, fun enough => ?_,
      fun little => ?_⟩
    · rw [plays.run (Sink.holds_limited_iff.mpr enough),
        Sink.pour_limited_of_le enough]
    · have full : ¬ Sink.Holds { written := written, room := some room } output :=
        fun fits => Nat.not_le.mpr little (Sink.holds_limited_iff.mp fits)
      obtain ⟨front, last, back, before, stopped, early, late, split, begun, fits,
        ended, overflows, ran⟩ := plays.overflow full
      refine ⟨front, last, back, before, stopped, early, late, split, begun.passes,
        Sink.holds_limited_iff.mp fits, ended.passes,
        Nat.not_le.mp fun enough => overflows (Sink.holds_limited_iff.mpr enough), ?_⟩
      rw [run, ran, Sink.pour_limited_of_lt little]
      rfl
  · obtain ⟨front, back, split⟩ := exists_first_none bad
    refine ⟨front, back, split, fun ends => ?_⟩
    have noFeed : ∀ line ∈ front, '\n' ∉ line.toList := by
      intro line member
      have isLine : some line ∈ Text.linesOfBytes input := by
        rw [split]
        exact List.mem_append_left _ (List.mem_map_of_mem member)
      exact Text.lineFeed_not_mem_linesOfBytes isLine
    obtain ⟨before, output, plays⟩ := exists_plays_of_terminates noFeed ends
    rw [split]
    refine ⟨before, output, plays.passes,
      plays.run_badEncoding Sink.holds_unlimited back, fun enough => ?_⟩
    rw [plays.run_badEncoding (Sink.holds_limited_iff.mpr enough) back,
      Sink.pour_limited_of_le enough]

/-- A run is cut off in the middle of an answer, or by a line that is not
well-formed, and no later clause is added. -/
theorem run_interrupted_assent :
    ({} : Session).Terminates (ScriptLine.ofScript assent) ∧
    none ∈ Text.linesOfBytes torn ∧
    (∃ whole,
      ({} : Session).runScript { room := some 14 } assent =
        some (whole, { written := Sink.bytesOf "Results:\np(a)\n", room := some 0 },
          .ok (whole.summary.since {}))) ∧
    (∃ front last back before stopped early late,
      Text.linesOf assent = front ++ last :: back ∧
      ({} : Session).Passes front before early ∧ early.length ≤ 8 ∧
      ({} : Session).Passes (front ++ [last]) stopped late ∧ 8 < late.length ∧
      ({} : Session).runScript { room := some 8 } assent =
        some (stopped, { written := Sink.bytesOf "Results:", room := some 0 },
          .error Sink.full)) ∧
    ∃ before,
      ({} : Session).run {} (Text.linesOfBytes torn) =
        some (before, { written := Sink.bytesOf "Results:\np(a)\n" },
          .error badEncoding) := by
  have bad : none ∈ Text.linesOfBytes torn := by
    rw [linesOfBytes_torn]
    decide
  obtain ⟨scripts, inputs, _⟩ := run_interrupted {} [] 14
  obtain ⟨whole, output, ran, fits, _⟩ := scripts assent terminates_assent
  obtain rfl : output = Sink.bytesOf "Results:\np(a)\n" := by
    have written := output_assent
    rw [ran] at written
    exact Option.some.inj written
  obtain ⟨shorter, _⟩ := run_interrupted {} [] 8
  obtain ⟨_, output, ran', _, cut⟩ := shorter assent terminates_assent
  obtain rfl : output = Sink.bytesOf "Results:\np(a)\n" := by
    rw [ran] at ran'
    cases ran'
    rfl
  obtain ⟨front, back, split, ended⟩ := inputs torn bad
  obtain rfl : front = ["p(a).", "?- p(X)."] := by
    rw [linesOfBytes_torn] at split
    rcases front with _ | ⟨first, _ | ⟨second, _ | ⟨third, front⟩⟩⟩ <;>
      simp at split
    rw [split.1, split.2.1]
  have ends : ({} : Session).Terminates
      ([.knowledge "p(a).", .query "p(X)."] ++ [.knowledge "q(b)."]) := by
    have ends := terminates_assent
    rw [ofScript_assent] at ends
    exact ends
  obtain ⟨before, output, _, failed, _⟩ := ended ends.front
  obtain rfl : output = Sink.bytesOf "Results:\np(a)\n" := by
    have written := output_torn
    rw [failed] at written
    exact Option.some.inj written
  exact ⟨terminates_assent, bad, ⟨whole, fits (by decide)⟩,
    cut (by decide), before, failed⟩

end Session

end HornLogic
