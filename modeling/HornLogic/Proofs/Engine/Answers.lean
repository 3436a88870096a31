import HornLogic.Proofs.Engine.Ingestion
import HornLogic.Proofs.Search.Vocabulary

/-!
# Answers of engines

What an engine reports is written in the language it reads.  Solutions and the
steps of derivations are made of the names and arguments of clauses and queries
that were read, so they can be read again, and no variable of a generation
shows.
-/

namespace HornLogic

theorem Clause.WellFormed.head {clause : Clause} (wellFormed : clause.WellFormed) :
    clause.head.WellFormed := by
  cases clause with
  | fact p => exact wellFormed
  | rule r => exact Rule.WellFormed.head wellFormed

theorem Clause.WellFormed.forall_mem {clause : Clause}
    (wellFormed : clause.WellFormed) :
    ∀ p ∈ clause.head :: clause.body, p.WellFormed := by
  refine List.forall_mem_cons.mpr ⟨wellFormed.head, ?_⟩
  cases clause with
  | fact p => exact List.forall_mem_nil _
  | rule r => exact Rule.WellFormed.body wellFormed

theorem KnowledgeBase.Mentions.wellFormed {kb : KnowledgeBase} {arg : Term}
    (mentioned : kb.Mentions arg)
    (wellFormed : ∀ clause ∈ kb.toList, clause.WellFormed) : arg.WellFormed := by
  obtain ⟨clause, member, p, inside, place⟩ := mentioned
  exact ((wellFormed clause member).forall_mem p inside).args arg place

/-- A solution has the name of its query and arguments that were written. -/
theorem Resolver.Solves.wellFormed {kb : KnowledgeBase}
    {settings : SearchSettings} {query p : Predicate}
    (solves : Solves kb settings query p) (asked : query.WellFormed)
    (written : ∀ clause ∈ kb.toList, clause.WellFormed) : p.WellFormed where
  word := by
    obtain ⟨image, rfl⟩ := solves.isInstance
    exact asked.word
  args arg member := by
    rcases solves.mentioned arg member with here | there
    · exact asked.args arg here
    · exact there.wellFormed written

namespace Example

/-- Everything is linked with itself, in a roundabout way. -/
def mirrorText : String :=
  "same(Z, Z).\nlink(X, Y) :- same(Y, X)."

def mirror : KnowledgeBase :=
  ⟨[.fact ⟨"same", [.var ⟨"Z"⟩, .var ⟨"Z"⟩]⟩,
    .rule ⟨⟨"link", [.var ⟨"X"⟩, .var ⟨"Y"⟩]⟩,
      [⟨"same", [.var ⟨"Y"⟩, .var ⟨"X"⟩]⟩]⟩]⟩

end Example

namespace Engine

/-- A query is read exactly if it can be read; a blank text cannot. -/
theorem readQuery_eq_ok_iff {text : String} {query : Predicate} :
    readQuery text = .ok query ↔ Predicate.readQuery text = .ok query := by
  rw [readQuery]
  split
  · rename_i blank
    rw [← Text.trim_eq_nil_iff] at blank
    constructor
    · exact nofun
    · intro isRead
      rw [Predicate.readQuery, Statement.readQuery, blank] at isRead
      cases isRead
  · cases Predicate.readQuery text <;> simp

/-- A query that can be read is reported on if its search ends. -/
theorem ask_eq_ok_iff {engine : Engine} {text : String} {outcome : Resolution} :
    engine.ask text = some (.ok outcome) ↔ ∃ query,
      Predicate.readQuery text = .ok query ∧
        engine.resolve query = some outcome := by
  simp only [← readQuery_eq_ok_iff]
  rw [ask]
  cases readQuery text <;> simp

/-- What an engine reports was found and logged by a search. -/
theorem resolve_eq_some_iff {engine : Engine} {query : Predicate}
    {outcome : Resolution} :
    engine.resolve query = some outcome ↔ ∃ run,
      Resolver.search engine.kb engine.settings.search query 0 = some run ∧
        Resolver.resolution query run = outcome := by
  rw [resolve, Resolver.answer_fresh, Option.map_eq_some_iff]

/--
Whatever texts were added to an engine, a solution it reports is an instance of
the query that was read.  Its constants stand in the query or in a clause, in
the threaded mode its variables stand in the query and are of no generation, and
it is read back from its text, as is every step of a derivation.
-/
theorem ask_in_language {settings : EngineSettings} {engine : Engine}
    (grown : engine.Grown settings) {text : String} {outcome : Resolution}
    (asked : engine.ask text = some (.ok outcome)) :
    Predicate.readQuery text = .ok outcome.query ∧
    (∀ p ∈ outcome.solutions,
      p.IsInstance outcome.query ∧
      (∀ name, .const name ∈ p.args →
        .const name ∈ outcome.query.args ∨ engine.kb.Mentions (.const name)) ∧
      (settings.search.conjunction = .threaded →
        ∀ v, .var v ∈ p.args → .var v ∈ outcome.query.args ∧ v.Plain) ∧
      Predicate.read p.text = .ok p) ∧
    ∀ derivation ∈ outcome.derivations, ∀ step ∈ derivation,
      Predicate.read step.text = .ok step := by
  obtain ⟨query, isRead, resolved⟩ := ask_eq_ok_iff.mp asked
  obtain ⟨run, ended, rfl⟩ := resolve_eq_some_iff.mp resolved
  have wellFormed := Predicate.wellFormed_of_readQuery isRead
  have written := grown.wellFormed
  refine ⟨isRead, fun p member => ?_, fun derivation member step inside => ?_⟩
  · have solves := Resolver.solves_of_search ended member
    refine ⟨solves.isInstance, fun name place => solves.mentioned _ place,
      fun threaded v place => ?_, (solves.wellFormed wellFormed written).read⟩
    rw [← grown.settings_eq] at threaded
    have here := solves.asked threaded v place
    exact ⟨here, wellFormed.plain.var here⟩
  · obtain ⟨clause, known, rfl⟩ := Resolver.search_steps _ _ _ 0 run ended
      derivation member step inside
    exact (written clause known).head.read

/-- An answer that is left unbound by two clauses has the first variable of the
query in both places. -/
theorem ask_in_language_mirror :
    Grown {} (add {} Example.mirrorText).1 ∧
    ∃ outcome, (add {} Example.mirrorText).1.ask "?- link(A, B)." =
        some (.ok outcome) ∧
      outcome.solutions = [⟨"link", [.var ⟨"A"⟩, .var ⟨"A"⟩]⟩] ∧
      ∀ p ∈ outcome.solutions, p.IsInstance outcome.query ∧
        (∀ v, .var v ∈ p.args → .var v ∈ outcome.query.args ∧ v.Plain) ∧
        Predicate.read p.text = .ok p := by
  have added : (add {} Example.mirrorText).1 = { kb := Example.mirror } := by decide +kernel
  have isRead : Predicate.readQuery "?- link(A, B)." =
      .ok ⟨"link", [.var ⟨"A"⟩, .var ⟨"B"⟩]⟩ := by decide +kernel
  have found : (resolve { kb := Example.mirror }
      ⟨"link", [.var ⟨"A"⟩, .var ⟨"B"⟩]⟩).map (·.solutions) =
        some [⟨"link", [.var ⟨"A"⟩, .var ⟨"A"⟩]⟩] := by
    decide +kernel
  obtain ⟨outcome, resolved, solutions⟩ := Option.map_eq_some_iff.mp found
  have grown : Grown {} (add {} Example.mirrorText).1 := .added .fresh _
  have asked : (add {} Example.mirrorText).1.ask "?- link(A, B)." =
      some (.ok outcome) :=
    ask_eq_ok_iff.mpr ⟨_, isRead, added ▸ resolved⟩
  obtain ⟨_, each, _⟩ := ask_in_language grown asked
  exact ⟨grown, outcome, asked, solutions, fun p member =>
    ⟨(each p member).1, (each p member).2.2.1 rfl, (each p member).2.2.2⟩⟩

end Engine

end HornLogic
