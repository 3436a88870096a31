import HornLogic.Proofs.Engine.Joining
import HornLogic.Proofs.Fault
import HornLogic.Proofs.Statement.Blame

/-!
# Reports of bad lines

A text that cannot be added is reported with its first bad line.  The number of the
line, what is wrong with it, the part of it that could not be read and the position in
that part are all taken from this line, blank lines being counted like all others.
-/

namespace HornLogic

namespace Statement

open Text (allBlank)

/-! ## The first bad line -/

theorem collect_cons_eq_error_iff {ε α : Type} {result : Except ε α}
    {results : List (Except ε α)} {e : ε} :
    collect (result :: results) = .error e ↔
      result = .error e ∨ (∃ a, result = .ok a) ∧ collect results = .error e := by
  cases result with
  | error first => simp [collect]
  | ok a =>
      rw [collect]
      cases collect results <;> simp [Except.map]

/-- A line that is neither blank nor a clause, all lines in front of it being one or the
other. -/
structure FirstRejected (lines front : List (List Char)) (line : List Char)
    (cause : Rejection) : Prop where
  split : ∃ back, lines = front ++ line :: back
  passed : ∀ earlier ∈ front, allBlank earlier = true ∨ ∃ c, readClause earlier = .ok c
  solid : allBlank line = false
  rejected : readClause line = .error cause

variable {lines front : List (List Char)} {line : List Char} {cause rejection : Rejection}

theorem FirstRejected.cons (first : FirstRejected lines front line cause)
    {earlier : List Char}
    (passed : allBlank earlier = true ∨ ∃ c, readClause earlier = .ok c) :
    FirstRejected (earlier :: lines) (earlier :: front) line cause := by
  obtain ⟨back, split⟩ := first.split
  exact ⟨⟨back, by rw [split, List.cons_append]⟩,
    List.forall_mem_cons.mpr ⟨passed, first.passed⟩, first.solid, first.rejected⟩

/-- The first line is the bad one, or it is passed over. -/
theorem first_rejected_or_passed {number : Nat}
    (failed : collect (((line :: lines).zipIdx number).filterMap fun place =>
      readSolid place.1 place.2) = .error rejection) :
    (allBlank line = false ∧
      ∃ cause, readClause line = .error cause ∧ rejection = cause.onLine number) ∨
    (allBlank line = true ∨ ∃ c, readClause line = .ok c) ∧
      collect ((lines.zipIdx (number + 1)).filterMap fun place =>
        readSolid place.1 place.2) = .error rejection := by
  rw [List.zipIdx_cons, List.filterMap_cons] at failed
  cases blank : allBlank line with
  | true =>
      rw [readSolid, if_pos blank] at failed
      exact .inr ⟨.inl rfl, failed⟩
  | false =>
      rw [readSolid, blank, if_neg Bool.false_ne_true, readNumbered] at failed
      cases isRead : readClause line with
      | ok c =>
          rw [isRead] at failed
          rcases collect_cons_eq_error_iff.mp failed with first | ⟨_, later⟩
          · cases first
          · exact .inr ⟨.inr ⟨c, rfl⟩, later⟩
      | error cause =>
          rw [isRead] at failed
          rcases collect_cons_eq_error_iff.mp failed with first | ⟨⟨_, good⟩, _⟩
          · exact .inl ⟨rfl, cause, rfl, (Except.error.inj first).symm⟩
          · cases good

/-- What a text with a bad line comes to is what is wrong with the first bad line. -/
theorem exists_firstRejected {number : Nat}
    (failed : collect ((lines.zipIdx number).filterMap fun place =>
      readSolid place.1 place.2) = .error rejection) :
    ∃ front line cause, FirstRejected lines front line cause ∧
      rejection = cause.onLine (number + front.length) := by
  induction lines generalizing number with
  | nil => cases failed
  | cons line lines ih =>
      rcases first_rejected_or_passed failed with
        ⟨solid, cause, rejected, here⟩ | ⟨passed, failed⟩
      · exact ⟨[], line, cause, ⟨⟨lines, rfl⟩, List.forall_mem_nil _, solid, rejected⟩, here⟩
      · -- the number and the lines passed over both grow by one
        obtain ⟨front, bad, cause, first, there⟩ := ih failed
        refine ⟨line :: front, bad, cause, first.cons passed, ?_⟩
        rw [there, List.length_cons, Nat.add_assoc, Nat.add_comm 1]

/-- The line stands behind as many line feeds as there are lines in front of it. -/
theorem FirstRejected.exists_place {text : List Char}
    (first : FirstRejected (Text.lines text) front line cause) :
    ∃ before behind, text = before ++ (line ++ behind) ∧
      before.count '\n' = front.length := by
  obtain ⟨back, split⟩ := first.split
  exact Text.exists_place_of_cutLines List.not_mem_nil split

@[simp] theorem Rejection.line?_atLine (number : Nat) (cause : Rejection) :
    (atLine number cause).line? = some number :=
  rfl

@[simp] theorem Rejection.text?_atLine (number : Nat) (cause : Rejection) :
    (atLine number cause).text? = cause.text? :=
  rfl

@[simp] theorem Rejection.position?_atLine (number : Nat) (cause : Rejection) :
    (atLine number cause).position? = cause.position? :=
  rfl

/-- A rejection that shows a part of its text has no line yet. -/
theorem Blames.onLine {text : List Char} (blames : Blames text cause) (number : Nat) :
    cause.onLine number = .atLine number cause := by
  cases blames <;> rfl

end Statement

open Statement (Rejection FirstRejected Blames)
open Text (byteLength)

/-! ## What is reported of it -/

namespace Fault

/-- The fault reports what is wrong with the line of a given number. -/
structure Reports (fault : Fault) (number : Nat) (line : List Char) (cause : Rejection) :
    Prop where
  coded : fault.code = .invalidPredicate ∨ fault.code = .invalidRule
  numbered : fault.fields.get? "line" = some (toString number)
  worded : fault.message = "line " ++ toString number ++ ": " ++ cause.message
  shown : ∃ text, fault.fields.get? "text" = some text ∧
    text ≠ "" ∧ text.toList <:+: line ∧
    ∀ value, fault.fields.get? "position" = some value →
      ∃ position, value = toString position ∧ position ≤ text.utf8ByteSize ∧
        (⟨position⟩ : String.Pos.Raw).IsValid text
  placed : (fault.fields.get? "position").isSome = true ↔
    fault.code = .invalidPredicate

variable {line : List Char} {cause : Rejection}

/-- A rejection that shows a part of a line is reported with that part. -/
theorem reports_of_blames (blames : Blames line cause) (number : Nat) :
    (ofRejection (.atLine number cause)).Reports number line cause := by
  have coded : (ofRejection (.atLine number cause)).code = codeOf cause :=
    code_ofRejection _
  have numbered : (ofRejection (.atLine number cause)).fields.get? "line" =
      some (toString number) := by
    simp [get?_ofRejection]
  have worded : (ofRejection (.atLine number cause)).message =
      "line " ++ toString number ++ ": " ++ cause.message := message_ofRejection _
  have shown : (ofRejection (.atLine number cause)).fields.get? "text" = cause.text? := by
    simp [get?_ofRejection]
  have placed : (ofRejection (.atLine number cause)).fields.get? "position" =
      cause.position?.map toString := by
    simp [get?_ofRejection]
  cases blames with
  | @predicate front left nonempty within =>
      refine ⟨.inl coded, numbered, worded,
        ⟨String.ofList (front ++ left), shown, ?_, by rwa [String.toList_ofList],
          fun value isValue => ⟨byteLength front, ?_, ?_, ?_⟩⟩, ?_⟩
      · rwa [ne_eq, String.ofList_eq_empty_iff]
      · rw [placed] at isValue
        exact (Option.some.inj isValue).symm
      · rw [Text.utf8ByteSize_ofList, Text.byteLength_append]
        exact Nat.le_add_right _ _
      · exact Text.isValid_byteLength front left
      · rw [placed, coded]
        exact iff_of_true rfl rfl
  | @rule text nonempty within flaw =>
      refine ⟨.inr coded, numbered, worded,
        ⟨String.ofList text, shown, ?_, by rwa [String.toList_ofList],
          fun value isValue => ?_⟩, ?_⟩
      · rwa [ne_eq, String.ofList_eq_empty_iff]
      · rw [placed] at isValue
        cases isValue
      · rw [placed, coded]
        exact iff_of_false Bool.false_ne_true nofun

end Fault

namespace Example

/-- A text with two good lines, a bad rule in the third line and a bad fact behind it. -/
def spoiled : String :=
  " \r\np(a).\n\tq(X) :- p(X), r X.\nbad"

end Example

namespace Engine

open Example (stocked spoiled)

/--
A text that cannot be added is reported as a bad predicate or a bad rule, and what is
reported is taken from the first line that is neither blank nor a clause: its number,
counted over all lines, what is wrong with it, a part of it that is not empty, and, for
a bad predicate and for nothing else, a position in that part.
-/
theorem fault_of_add {engine : Engine} {text : String} {fault : Fault}
    (failed : (engine.add text).2 = .error fault) :
    ∃ front line cause, FirstRejected (Text.lines text.toList) front line cause ∧
      (∃ before behind, text.toList = before ++ (line ++ behind) ∧
        before.count '\n' = front.length) ∧
      fault.Reports (front.length + 1) line cause := by
  cases collected : Statement.collect (Clause.readLines text) with
  | ok clauses =>
      rw [add_of_ok collected] at failed
      cases failed
  | error rejection =>
      rw [add_of_error collected] at failed
      cases failed
      obtain ⟨front, line, cause, first, rfl⟩ := Statement.exists_firstRejected collected
      have blames := Statement.blames_readClause first.solid first.rejected
      refine ⟨front, line, cause, first, first.exists_place, ?_⟩
      rw [blames.onLine, Nat.add_comm 1]
      exact Fault.reports_of_blames blames _

/-- The goal in the third line is reported, with the position of the missing
parenthesis. -/
theorem fault_of_add_spoiled : ∃ fault,
    (add (stocked .keepLeading) spoiled).2 = .error fault ∧
    fault.code = .invalidPredicate ∧
    fault.message = "line 3: invalid predicate format: r X" ∧
    fault.fields.get? "line" = some "3" ∧
    fault.fields.get? "text" = some "r X" ∧
    fault.fields.get? "position" = some "2" ∧
    ∃ front line cause, FirstRejected (Text.lines spoiled.toList) front line cause ∧
      fault.Reports (front.length + 1) line cause := by
  have failed : (add (stocked .keepLeading) spoiled).2 =
      .error (.ofRejection (.atLine 3 (.predicate "r X" 2))) := by decide +kernel
  obtain ⟨front, line, cause, first, _, reports⟩ := fault_of_add failed
  exact ⟨_, failed, by decide +kernel, by decide +kernel, by decide +kernel,
    by decide +kernel, by decide +kernel, front, line, cause, first, reports⟩

end Engine

end HornLogic
