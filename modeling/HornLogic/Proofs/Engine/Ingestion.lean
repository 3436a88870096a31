import HornLogic.Engine
import HornLogic.Proofs.Statement.Printing

/-!
# Ingestion

What a text adds to the clauses of an engine: all of its clauses, or, if a line
is bad, what the ingest policy keeps of those in front of the line.  All clauses
of an engine have been read, so they are well-formed.
-/

namespace HornLogic

open Statement (Rejection collect)

namespace Engine

/-- What all results come to is what the leading ones come to. -/
theorem leading_of_collect {ε α : Type} {results : List (Except ε α)}
    {values : List α} (collected : collect results = .ok values) :
    leading results = values := by
  induction results generalizing values with
  | nil =>
      cases collected
      rfl
  | cons result results ih =>
      obtain ⟨value, others, rfl, rest, rfl⟩ :=
        Statement.collect_cons_iff.mp collected
      rw [leading, ih rest]

theorem mem_of_mem_leading {ε α : Type} {results : List (Except ε α)} {value : α}
    (member : value ∈ leading results) : .ok value ∈ results := by
  induction results with
  | nil => cases member
  | cons result results ih =>
      cases result with
      | error e => cases member
      | ok first =>
          rcases List.mem_cons.mp member with rfl | later
          · exact List.mem_cons_self
          · exact List.mem_cons_of_mem _ (ih later)

end Engine

/-- The clauses that a policy keeps of a text with a bad line. -/
def IngestPolicy.kept (policy : IngestPolicy)
    (results : List (Except Rejection Clause)) : List Clause :=
  match policy with
  | .allOrNothing => []
  | .keepLeading => Engine.leading results

namespace Engine

theorem add_of_ok {text : String} {clauses : List Clause}
    (collected : collect (Clause.readLines text) = .ok clauses) (engine : Engine) :
    engine.add text =
      ({ engine with kb := engine.kb.addAll clauses }, .ok clauses.length) := by
  rw [add, collected]

/-- A text with a bad line adds what the policy keeps of it. -/
theorem add_of_error {text : String} {rejection : Rejection}
    (collected : collect (Clause.readLines text) = .error rejection)
    (engine : Engine) :
    engine.add text =
      ({ engine with
          kb := engine.kb.addAll
            (engine.settings.ingest.kept (Clause.readLines text)) },
        .error (.ofRejection rejection)) := by
  rw [add, collected]
  rfl

/-- A text adds clauses of its lines, and changes nothing else. -/
theorem exists_add (engine : Engine) (text : String) : ∃ clauses,
    (∀ clause ∈ clauses, .ok clause ∈ Clause.readLines text) ∧
      (engine.add text).1 =
        { engine with kb := engine.kb.addAll clauses } := by
  cases collected : collect (Clause.readLines text) with
  | ok clauses =>
      refine ⟨clauses, fun clause member => ?_, by rw [add_of_ok collected]⟩
      rw [← leading_of_collect collected] at member
      exact mem_of_mem_leading member
  | error rejection =>
      refine ⟨_, fun clause member => ?_, by rw [add_of_error collected]⟩
      cases policy : engine.settings.ingest with
      | allOrNothing =>
          rw [policy] at member
          cases member
      | keepLeading =>
          rw [policy] at member
          exact mem_of_mem_leading member

/-- An engine that was created with some settings, and to which texts have been
added and whose clauses have been dropped since. -/
inductive Grown (settings : EngineSettings) : Engine → Prop where
  | fresh : Grown settings { settings := settings }
  | added {engine : Engine} (before : Grown settings engine) (text : String) :
      Grown settings (engine.add text).1
  | cleared {engine : Engine} (before : Grown settings engine) :
      Grown settings engine.clear

variable {settings : EngineSettings} {engine : Engine}

theorem Grown.settings_eq (grown : engine.Grown settings) :
    engine.settings = settings := by
  induction grown with
  | fresh => rfl
  | @added engine before text ih =>
      obtain ⟨clauses, _, after⟩ := engine.exists_add text
      rw [after]
      exact ih
  | cleared before ih => exact ih

theorem Grown.wellFormed (grown : engine.Grown settings) :
    ∀ clause ∈ engine.kb.toList, clause.WellFormed := by
  induction grown with
  | fresh => exact List.forall_mem_nil _
  | @added engine before text ih =>
      obtain ⟨clauses, isRead, after⟩ := engine.exists_add text
      rw [after, KnowledgeBase.toList_addAll, List.forall_mem_append]
      exact ⟨ih, fun clause member =>
        Clause.wellFormed_of_mem_readLines (isRead clause member)⟩
  | cleared before ih => exact List.forall_mem_nil _

end Engine

end HornLogic
