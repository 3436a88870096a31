import HornLogic.Proofs.Engine.Ingestion

/-!
# Atomic ingestion

The lines of a text are good throughout, or they are good up to a first bad one.
An engine that keeps the clauses in front of a bad line adds one clause at a time
until it meets such a line; an engine that keeps nothing does the same, and takes
everything back if it fails.  Either way the clauses that were there stay where
they are.
-/

namespace HornLogic

open Statement (Rejection collect)

/-! ## Good lines and the first bad one -/

namespace Statement

variable {ε α : Type} {results : List (Except ε α)}

theorem collect_eq_ok_iff {values : List α} :
    collect results = .ok values ↔ results = values.map .ok := by
  induction results generalizing values with
  | nil =>
      rw [collect, @eq_comm _ [], List.map_eq_nil_iff]
      exact ⟨fun same => (Except.ok.inj same).symm, fun none => by rw [none]⟩
  | cons result results ih =>
      rw [collect_cons_iff]
      constructor
      · rintro ⟨value, others, rfl, rest, rfl⟩
        rw [ih.mp rest, List.map_cons]
      · intro good
        obtain ⟨value, others, rfl, first, rest⟩ := List.map_eq_cons_iff.mp good.symm
        exact ⟨value, others, first.symm, ih.mpr rest.symm, rfl⟩

theorem collect_eq_error_iff {e : ε} :
    collect results = .error e ↔ ∃ (values : List α) (rest : List (Except ε α)),
      results = values.map .ok ++ .error e :: rest := by
  induction results with
  | nil => simp [collect]
  | cons result results ih =>
      cases result with
      | error first =>
          rw [collect]
          constructor
          · intro same
            rw [Except.error.inj same]
            exact ⟨[], results, rfl⟩
          · rintro ⟨values, rest, split⟩
            cases values with
            | nil => rw [Except.error.inj (List.cons.inj split).1]
            | cons value values => cases (List.cons.inj split).1
      | ok value =>
          have later : collect (.ok value :: results) = .error e ↔
              collect results = .error e := by
            rw [collect]
            cases collect results <;> simp [Except.map]
          rw [later, ih]
          constructor
          · rintro ⟨values, rest, rfl⟩
            exact ⟨value :: values, rest, rfl⟩
          · rintro ⟨values, rest, split⟩
            cases values with
            | nil => cases (List.cons.inj split).1
            | cons first values => exact ⟨values, rest, (List.cons.inj split).2⟩

end Statement

namespace Engine

theorem leading_append_error {ε α : Type} (values : List α) (e : ε)
    (rest : List (Except ε α)) :
    leading (values.map .ok ++ .error e :: rest) = values := by
  induction values with
  | nil => rfl
  | cons value values ih => rw [List.map_cons, List.cons_append, leading, ih]

/-! ## One line at a time -/

/-- Add the clauses of lines one at a time, counting on from a number; the first
bad line is a fault, and no line behind it is added. -/
def addEach (engine : Engine) (count : Nat) :
    List (Except Rejection Clause) → Engine × Except Fault Nat
  | [] => (engine, .ok count)
  | .ok clause :: rest =>
      addEach { engine with kb := engine.kb.add clause } (count + 1) rest
  | .error rejection :: _ => (engine, .error (.ofRejection rejection))

theorem addEach_append (engine : Engine) (count : Nat) (clauses : List Clause)
    (rest : List (Except Rejection Clause)) :
    engine.addEach count (clauses.map .ok ++ rest) =
      addEach { engine with kb := engine.kb.addAll clauses }
        (count + clauses.length) rest := by
  induction clauses generalizing engine count with
  | nil => simp [KnowledgeBase.addAll]
  | cons clause clauses ih =>
      rw [List.map_cons, List.cons_append, addEach, ih]
      simp [KnowledgeBase.add, KnowledgeBase.addAll, Nat.add_assoc, Nat.add_comm 1]

end Engine

/-- What a policy makes of lines that were added one at a time.  If one of them
was bad, the engine is what it was before, unless the leading clauses are kept. -/
def IngestPolicy.conclude (policy : IngestPolicy) (before : Engine) :
    Engine × Except Fault Nat → Engine × Except Fault Nat
  | (after, .ok count) => (after, .ok count)
  | (after, .error fault) =>
      match policy with
      | .allOrNothing => (before, .error fault)
      | .keepLeading => (after, .error fault)

namespace Engine

/-- A text with a bad line adds all clauses in front of that line or none. -/
theorem add_of_first_error {text : String} {clauses : List Clause}
    {rejection : Rejection} {rest : List (Except Rejection Clause)}
    (isRead : Clause.readLines text = clauses.map .ok ++ .error rejection :: rest)
    (engine : Engine) :
    engine.add text =
      ({ engine with
          kb := match engine.settings.ingest with
            | .allOrNothing => engine.kb
            | .keepLeading => engine.kb.addAll clauses },
        .error (.ofRejection rejection)) := by
  rw [add_of_error (Statement.collect_eq_error_iff.mpr ⟨clauses, rest, isRead⟩),
    isRead]
  cases engine.settings.ingest with
  | allOrNothing => simp [IngestPolicy.kept, KnowledgeBase.addAll]
  | keepLeading => rw [IngestPolicy.kept, leading_append_error]

/-- Both policies add one line at a time, and one of them takes a failure back. -/
theorem add_eq_conclude (engine : Engine) (text : String) :
    engine.add text = engine.settings.ingest.conclude engine
      (engine.addEach 0 (Clause.readLines text)) := by
  cases collected : collect (Clause.readLines text) with
  | ok clauses =>
      have each := engine.addEach_append 0 clauses []
      rw [List.append_nil, ← Statement.collect_eq_ok_iff.mp collected,
        Nat.zero_add, addEach] at each
      rw [add_of_ok collected, each, IngestPolicy.conclude]
  | error rejection =>
      obtain ⟨clauses, rest, isRead⟩ := Statement.collect_eq_error_iff.mp collected
      have each := engine.addEach_append 0 clauses (.error rejection :: rest)
      rw [← isRead, addEach] at each
      rw [add_of_first_error isRead, each]
      cases engine.settings.ingest <;> rfl

end Engine

namespace Example

def stocked (policy : IngestPolicy) : Engine where
  kb := ⟨[.fact ⟨"a", [.const "b"]⟩]⟩
  settings := { ingest := policy }

theorem readLines_spaced : Clause.readLines "c(d).\n\nf(X)" =
    [.fact ⟨"c", [.const "d"]⟩, .fact ⟨"f", [.var ⟨"X"⟩]⟩].map .ok := by
  decide +kernel

theorem readLines_broken : Clause.readLines "c(d).\n\nbad\nf(X)" =
    [.fact ⟨"c", [.const "d"]⟩].map .ok ++
      .error (.atLine 3 (.predicate "bad" 3)) ::
        [.ok (.fact ⟨"f", [.var ⟨"X"⟩]⟩)] := by
  decide +kernel

end Example

namespace Engine

open Example (stocked readLines_spaced readLines_broken)

/--
A text whose lines are all good adds its clauses in order and tells their number.
Else the fault is the one of the first bad line, and the engine keeps all clauses
in front of that line or none, as its policy says.  Both policies follow from
adding one line at a time, and no clause that was there is changed, moved or
dropped.
-/
theorem add_atomic (engine : Engine) (text : String) :
    ((∃ clauses : List Clause, Clause.readLines text = clauses.map .ok) ∨
      ∃ (clauses : List Clause) (rejection : Rejection)
        (rest : List (Except Rejection Clause)),
        Clause.readLines text = clauses.map .ok ++ .error rejection :: rest) ∧
    (∀ clauses : List Clause, Clause.readLines text = clauses.map .ok →
      engine.add text =
        ({ engine with kb := engine.kb.addAll clauses }, .ok clauses.length)) ∧
    (∀ (clauses : List Clause) (rejection : Rejection)
      (rest : List (Except Rejection Clause)),
      Clause.readLines text = clauses.map .ok ++ .error rejection :: rest →
        engine.add text =
          ({ engine with
              kb := match engine.settings.ingest with
                | .allOrNothing => engine.kb
                | .keepLeading => engine.kb.addAll clauses },
            .error (.ofRejection rejection))) ∧
    engine.add text =
      engine.settings.ingest.conclude engine
        (engine.addEach 0 (Clause.readLines text)) ∧
    engine.kb.toList <+: (engine.add text).1.kb.toList := by
  refine ⟨?_, fun clauses isRead => ?_, fun _ _ _ isRead => ?_,
    engine.add_eq_conclude text, ?_⟩
  · cases collected : collect (Clause.readLines text) with
    | ok clauses => exact .inl ⟨clauses, Statement.collect_eq_ok_iff.mp collected⟩
    | error rejection =>
        obtain ⟨clauses, rest, isRead⟩ := Statement.collect_eq_error_iff.mp collected
        exact .inr ⟨clauses, rejection, rest, isRead⟩
  · exact add_of_ok (Statement.collect_eq_ok_iff.mpr isRead) engine
  · exact add_of_first_error isRead engine
  · obtain ⟨clauses, _, after⟩ := engine.exists_add text
    rw [after]
    exact List.prefix_append _ _

/-- Two clauses with a blank line between them are added; with a bad line between
them the policy decides whether the first one is kept. -/
theorem add_atomic_stocked :
    Clause.readLines "c(d).\n\nf(X)" =
      [.fact ⟨"c", [.const "d"]⟩, .fact ⟨"f", [.var ⟨"X"⟩]⟩].map .ok ∧
    Clause.readLines "c(d).\n\nbad\nf(X)" =
      [.fact ⟨"c", [.const "d"]⟩].map .ok ++
        .error (.atLine 3 (.predicate "bad" 3)) ::
          [.ok (.fact ⟨"f", [.var ⟨"X"⟩]⟩)] ∧
    (add (stocked .allOrNothing) "c(d).\n\nf(X)").2 = .ok 2 ∧
    (add (stocked .allOrNothing) "c(d).\n\nbad\nf(X)").1 = stocked .allOrNothing ∧
    (add (stocked .keepLeading) "c(d).\n\nbad\nf(X)").1.kb.toList =
      [.fact ⟨"a", [.const "b"]⟩, .fact ⟨"c", [.const "d"]⟩] ∧
    (add (stocked .allOrNothing) "c(d).\n\nbad\nf(X)").2 =
      (add (stocked .keepLeading) "c(d).\n\nbad\nf(X)").2 := by
  obtain ⟨_, good, _⟩ := add_atomic (stocked .allOrNothing) "c(d).\n\nf(X)"
  obtain ⟨_, _, strict, _⟩ := add_atomic (stocked .allOrNothing) "c(d).\n\nbad\nf(X)"
  obtain ⟨_, _, lenient, _⟩ := add_atomic (stocked .keepLeading) "c(d).\n\nbad\nf(X)"
  rw [good _ readLines_spaced, strict _ _ _ readLines_broken,
    lenient _ _ _ readLines_broken]
  exact ⟨readLines_spaced, readLines_broken, rfl, rfl, rfl, rfl⟩

end Engine

end HornLogic
