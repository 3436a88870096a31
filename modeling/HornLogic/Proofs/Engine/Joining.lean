import HornLogic.Proofs.Engine.Atomicity

/-!
# Texts put together

Two texts with a line feed between them are read one after the other.  Every line
feed in the first text and the one behind it end a line, blank or not, and so the
lines of the second text stand that much further down.  What the last line of the
first text ends with is no matter: only white space is dropped there.
-/

namespace HornLogic

/-! ## Lines of two texts -/

namespace Text

/-- Each line feed ends one line. -/
theorem length_cutLines_append_lineFeed {α : Type} [DecidableEq α]
    (carriageReturn lineFeed : α) (unfinished front back : List α) :
    (cutLines carriageReturn lineFeed unfinished (front ++ lineFeed :: back)).length =
      front.count lineFeed + 1 + (cutLines carriageReturn lineFeed [] back).length := by
  induction front generalizing unfinished with
  | nil =>
      rw [List.nil_append, cutLines_lineFeed, List.length_cons, List.count_nil]
      omega
  | cons symbol front ih =>
      by_cases feed : symbol = lineFeed
      · rw [feed, List.cons_append, cutLines_lineFeed, List.length_cons, ih,
          List.count_cons_self]
        omega
      · rw [List.cons_append, cutLines, if_neg feed, ih,
          List.count_cons_of_ne feed]

end Text

namespace Statement

open Text (allBlank trim trim_eq_nil_iff isBlank)

namespace Rejection

/-- The rejection if so many lines stood in front. -/
def lowered (lines : Nat) : Rejection → Rejection
  | .atLine line cause => .atLine (line + lines) cause
  | rejection => rejection

@[simp]
theorem line?_lowered (lines : Nat) (rejection : Rejection) :
    (rejection.lowered lines).line? = rejection.line?.map (· + lines) := by
  cases rejection <;> rfl

@[simp]
theorem root_lowered (lines : Nat) (rejection : Rejection) :
    (rejection.lowered lines).root = rejection.root := by
  cases rejection <;> simp [lowered, root]

theorem onLine_add (number lines : Nat) (rejection : Rejection) :
    rejection.onLine (number + lines) = (rejection.onLine number).lowered lines := by
  cases rejection <;> rfl

end Rejection

def readSolid (line : List Char) (number : Nat) : Option (Except Rejection Clause) :=
  if allBlank line then none else some (readNumbered line number)

theorem readLines_eq (text : List Char) :
    readLines text =
      ((Text.lines text).zipIdx 1).filterMap fun place => readSolid place.1 place.2 :=
  rfl

/-- White space at the ends of a line does not count. -/
theorem readSolid_congr {line line' : List Char} (same : trim line = trim line')
    (number : Nat) : readSolid line number = readSolid line' number := by
  have blank : allBlank line = allBlank line' := by
    rw [Bool.eq_iff_iff, ← trim_eq_nil_iff, ← trim_eq_nil_iff, same]
  have isRead : readClause line = readClause line' := by
    rw [readClause, readClause, same]
  rw [readSolid, readSolid, readNumbered, readNumbered, blank, isRead]

theorem readNumbered_add (line : List Char) (number lines : Nat) :
    readNumbered line (number + lines) =
      (readNumbered line number).mapError (Rejection.lowered lines) := by
  rw [readNumbered, readNumbered]
  cases readClause line with
  | ok c => rfl
  | error rejection =>
      exact congrArg Except.error (rejection.onLine_add number lines)

/-- A line further down is read alike, and rejected further down. -/
theorem readSolid_add (line : List Char) (number lines : Nat) :
    readSolid line (number + lines) =
      (readSolid line number).map (Except.mapError (Rejection.lowered lines)) := by
  rw [readSolid, readSolid, readNumbered_add]
  split <;> rfl

/-- An unfinished line reads as it does when it is closed. -/
theorem filterMap_unfinished (unfinished : List Char) (number : Nat) :
    ((Text.cutLines '\r' '\n' unfinished []).zipIdx number).filterMap
        (fun place => readSolid place.1 place.2) =
      (readSolid (Text.closeLine '\r' unfinished) number).toList := by
  cases unfinished with
  | nil => rfl
  | cons last before =>
      obtain ⟨back, returns, split⟩ := Text.exists_closeLine '\r' (last :: before)
      have same : trim (last :: before).reverse =
          trim (Text.closeLine '\r' (last :: before)) := by
        rw [split]
        refine Text.trim_append fun c member => ?_
        rw [returns c member]
        decide
      rw [Text.cutLines_nil (List.cons_ne_nil _ _), List.zipIdx_cons,
        List.zipIdx_nil, List.filterMap_cons, readSolid_congr same]
      cases readSolid (Text.closeLine '\r' (last :: before)) number <;> rfl

/-- Lines that stand further down are read alike, and rejected further down. -/
theorem filterMap_zipIdx_add (lines : List (List Char)) (number further : Nat) :
    (lines.zipIdx (number + further)).filterMap
        (fun place => readSolid place.1 place.2) =
      ((lines.zipIdx number).filterMap fun place => readSolid place.1 place.2).map
        (Except.mapError (Rejection.lowered further)) := by
  induction lines generalizing number with
  | nil => rfl
  | cons line lines ih =>
      have later := ih (number + 1)
      rw [Nat.add_right_comm] at later
      rw [List.zipIdx_cons, List.zipIdx_cons, List.filterMap_cons, List.filterMap_cons,
        readSolid_add, later]
      cases readSolid line number <;> rfl

/-- The results of two texts, those of the second one further down. -/
theorem readLines_append (front back : List Char) :
    readLines (front ++ '\n' :: back) =
      readLines front ++ (readLines back).map
        (Except.mapError (Rejection.lowered (front.count '\n' + 1))) := by
  obtain ⟨lines, last, short, long⟩ :=
    Text.cutLines_append_lineFeed '\r' '\n' [] front back
  have counted : lines.length = front.count '\n' := by
    have whole := Text.length_cutLines_append_lineFeed '\r' '\n' [] front back
    rw [long, List.length_append, List.length_cons] at whole
    omega
  have further : 1 + lines.length + 1 = 1 + (front.count '\n' + 1) := by omega
  rw [readLines_eq, readLines_eq, readLines_eq, Text.lines, Text.lines, Text.lines,
    short, long, List.zipIdx_append, List.zipIdx_append, List.filterMap_append,
    List.filterMap_append, List.zipIdx_cons, List.filterMap_cons, further,
    filterMap_zipIdx_add, filterMap_unfinished]
  cases readSolid (Text.closeLine '\r' last) (1 + lines.length) <;> simp

/-- A line is rejected with its number. -/
theorem exists_line_of_mem_readLines {text : List Char} {rejection : Rejection}
    (member : .error rejection ∈ readLines text) :
    ∃ line cause, rejection = .atLine line cause := by
  obtain ⟨⟨line, number⟩, _, isRead⟩ := List.mem_filterMap.mp member
  dsimp only at isRead
  split at isRead
  · cases isRead
  · rw [Option.some.injEq, readNumbered] at isRead
    split at isRead
    · cases isRead
    · cases isRead
      rename_i cause _
      cases cause <;> exact ⟨_, _, rfl⟩

/-! ## Results of two texts -/

section Results

variable {ε α : Type} {results others : List (Except ε α)} {values : List α}

theorem collect_append_iff :
    collect (results ++ others) = .ok values ↔
      ∃ front back, collect results = .ok front ∧ collect others = .ok back ∧
        values = front ++ back := by
  simp only [collect_eq_ok_iff]
  constructor
  · intro good
    obtain ⟨front, back, rfl, first, second⟩ := List.map_eq_append_iff.mp good.symm
    exact ⟨front, back, first.symm, second.symm, rfl⟩
  · rintro ⟨front, back, rfl, rfl, rfl⟩
    exact List.map_append.symm

/-- What is noted in failures does not change what all results come to. -/
theorem collect_mapError_iff {noted : ε → ε} :
    collect (results.map (Except.mapError noted)) = .ok values ↔
      collect results = .ok values := by
  induction results generalizing values with
  | nil => rfl
  | cons result results ih =>
      simp only [List.map_cons, collect_cons_iff, ih]
      cases result <;> simp [Except.mapError]

end Results

end Statement

open Statement (Rejection)

theorem Clause.readLines_append (front back : String) :
    Clause.readLines (front ++ "\n" ++ back) =
      Clause.readLines front ++ (Clause.readLines back).map
        (Except.mapError (Rejection.lowered (1 + front.toList.count '\n'))) := by
  have whole : (front ++ "\n" ++ back).toList =
      front.toList ++ '\n' :: back.toList := by simp
  rw [Clause.readLines, whole, Statement.readLines_append, Nat.add_comm 1]
  rfl

namespace Engine

section Results

variable {ε α : Type} {results : List (Except ε α)}

theorem leading_map_ok_append (values : List α) (others : List (Except ε α)) :
    leading (values.map .ok ++ others) = values ++ leading others := by
  induction values with
  | nil => rfl
  | cons value values ih => rw [List.map_cons, List.cons_append, leading, ih]; rfl

theorem leading_mapError (noted : ε → ε) :
    leading (results.map (Except.mapError noted)) = leading results := by
  induction results with
  | nil => rfl
  | cons result results ih =>
      cases result with
      | error e => rfl
      | ok value => exact congrArg (value :: ·) ih

end Results

/-- Whether or not a line is bad, the clauses in front of the first bad line are
kept. -/
theorem add_of_keepLeading (engine : Engine)
    (lenient : engine.settings.ingest = .keepLeading) (text : String) :
    (engine.add text).1 =
      { engine with kb := engine.kb.addAll (leading (Clause.readLines text)) } := by
  cases collected : Statement.collect (Clause.readLines text) with
  | ok clauses => rw [add_of_ok collected, leading_of_collect collected]
  | error rejection => rw [add_of_error collected, lenient]; rfl

/-- Two texts put together leave what the second one leaves after the first one, or
what the first one leaves if it has a bad line. -/
theorem add_append {engine : Engine}
    (lenient : engine.settings.ingest = .keepLeading) (front back : String) :
    (engine.add (front ++ "\n" ++ back)).1 =
      match engine.add front with
      | (after, .ok _) => (after.add back).1
      | (after, .error _) => after := by
  rw [add_of_keepLeading engine lenient, Clause.readLines_append]
  cases collected : Statement.collect (Clause.readLines front) with
  | ok clauses =>
      have good := Statement.collect_eq_ok_iff.mp collected
      have second := add_of_keepLeading
        { engine with kb := engine.kb.addAll clauses } lenient back
      rw [add_of_ok collected]
      dsimp only
      rw [second, good, leading_map_ok_append, leading_mapError]
      simp [KnowledgeBase.addAll]
  | error rejection =>
      obtain ⟨clauses, rest, bad⟩ := Statement.collect_eq_error_iff.mp collected
      rw [add_of_first_error bad, lenient, bad, List.append_assoc, List.cons_append,
        leading_append_error]

end Engine

namespace Example

/-- A text with three lines, the last one bad; two of them end with a carriage
return. -/
def upper : String :=
  "c(d).\r\n\nbad\r"

def lower : String :=
  "\nf(X)\nworse"

theorem readLines_upper : Clause.readLines upper =
    [.ok (.fact ⟨"c", [.const "d"]⟩), .error (.atLine 3 (.predicate "bad" 3))] := by
  decide +kernel

theorem readLines_lower : Clause.readLines lower =
    [.ok (.fact ⟨"f", [.var ⟨"X"⟩]⟩), .error (.atLine 3 (.predicate "worse" 5))] := by
  decide +kernel

end Example

namespace Engine

open Example (stocked upper lower readLines_upper readLines_lower)

/--
Two texts with a line feed between them are read one after the other, and what is
rejected in the second one is rejected as many lines further down as line feeds
stand in front of it.  So the whole is read as clauses exactly if both texts are,
and they are those of the one and then those of the other.  An engine that keeps the
clauses in front of a bad line is left as if the texts were added one after the
other, the second one only if the first one has no bad line.
-/
theorem add_joined (front back : String) :
    Clause.readLines (front ++ "\n" ++ back) =
      Clause.readLines front ++ (Clause.readLines back).map
        (Except.mapError (Rejection.lowered (1 + front.toList.count '\n'))) ∧
    (∀ rejection, .error rejection ∈ Clause.readLines back → ∃ line,
      rejection.line? = some line ∧
      (rejection.lowered (1 + front.toList.count '\n')).line? =
        some (line + (1 + front.toList.count '\n')) ∧
      (rejection.lowered (1 + front.toList.count '\n')).root = rejection.root) ∧
    (∀ clauses, Clause.readAll (front ++ "\n" ++ back) = .ok clauses ↔
      ∃ first second, Clause.readAll front = .ok first ∧
        Clause.readAll back = .ok second ∧ clauses = first ++ second) ∧
    (∀ engine : Engine, engine.settings.ingest = .keepLeading →
      (engine.add (front ++ "\n" ++ back)).1 =
        match engine.add front with
        | (after, .ok _) => (after.add back).1
        | (after, .error _) => after) := by
  refine ⟨Clause.readLines_append front back, fun rejection member => ?_,
    fun clauses => ?_, fun engine lenient => add_append lenient front back⟩
  · obtain ⟨line, cause, rfl⟩ := Statement.exists_line_of_mem_readLines member
    exact ⟨line, rfl, Rejection.line?_lowered _ _, Rejection.root_lowered _ _⟩
  · change Statement.collect (Clause.readLines (front ++ "\n" ++ back)) = _ ↔ _
    rw [Clause.readLines_append, Statement.collect_append_iff]
    simp only [Statement.collect_mapError_iff]
    rfl

/-- The lines of the second text stand three lines further down, although the first
one is rejected and nothing of the second one is added. -/
theorem add_joined_upper :
    Clause.readLines (upper ++ "\n" ++ lower) =
      [.ok (.fact ⟨"c", [.const "d"]⟩), .error (.atLine 3 (.predicate "bad" 3)),
        .ok (.fact ⟨"f", [.var ⟨"X"⟩]⟩),
        .error (.atLine 6 (.predicate "worse" 5))] ∧
    .error (.atLine 3 (.predicate "worse" 5)) ∈ Clause.readLines lower ∧
    (stocked .keepLeading).settings.ingest = .keepLeading ∧
    (add (stocked .keepLeading) (upper ++ "\n" ++ lower)).1 =
      (add (stocked .keepLeading) upper).1 ∧
    (add (stocked .keepLeading) (lower ++ "\n" ++ upper)).1.kb.size = 2 := by
  obtain ⟨joined, _, _, leaves⟩ := add_joined upper lower
  obtain ⟨_, _, _, leaves'⟩ := add_joined lower upper
  have feeds : 1 + upper.toList.count '\n' = 3 := by decide
  rw [feeds, readLines_upper, readLines_lower] at joined
  have bad : Clause.readLines upper = [.fact ⟨"c", [.const "d"]⟩].map .ok ++
      .error (.atLine 3 (.predicate "bad" 3)) :: [] := readLines_upper
  have bad' : Clause.readLines lower = [.fact ⟨"f", [.var ⟨"X"⟩]⟩].map .ok ++
      .error (.atLine 3 (.predicate "worse" 5)) :: [] := readLines_lower
  refine ⟨joined, by rw [readLines_lower]; simp, rfl, ?_, ?_⟩
  · rw [leaves (stocked .keepLeading) rfl, add_of_first_error bad]
  · rw [leaves' (stocked .keepLeading) rfl, add_of_first_error bad']
    rfl

end Engine

end HornLogic
