import HornLogic.Proofs.Search.Cutoff
import HornLogic.Proofs.Search.Logging

/-!
# Ranked names

Where the goals of a body rank below its head, a goal has used up as many ranks
as its depth.  The search for a query then stays within the rank of its name: it
ends without a limit, gives up no goal, and every limit from that rank on leaves
it as it is.
-/

namespace HornLogic

/-- No goal was given up, and none lies deeper than a level. -/
structure SearchLog.Shallow (level : Nat) (log : SearchLog) : Prop where
  cutoffs : log.stats.cutoffs = 0
  deepest : log.stats.deepest ≤ level

namespace SearchLog

theorem shallow_empty (level : Nat) : ({} : SearchLog).Shallow level :=
  ⟨rfl, Nat.zero_le level⟩

theorem Shallow.append {level : Nat} {first second : SearchLog}
    (here : first.Shallow level) (there : second.Shallow level) :
    (first ++ second).Shallow level where
  cutoffs := by
    change first.stats.cutoffs + second.stats.cutoffs = 0
    rw [here.cutoffs, there.cutoffs]
  deepest := Nat.max_le.mpr ⟨here.deepest, there.deepest⟩

end SearchLog

namespace Example

/-- Nodes between two others in a graph, in two layers of rules. -/
def between : KnowledgeBase :=
  ⟨[.fact ⟨"edge", [.const "a", .const "b"]⟩,
    .fact ⟨"edge", [.const "b", .const "c"]⟩,
    .rule ⟨⟨"link", [.var ⟨"X"⟩, .var ⟨"Y"⟩]⟩,
      [⟨"edge", [.var ⟨"X"⟩, .var ⟨"Y"⟩]⟩]⟩,
    .rule ⟨⟨"link", [.var ⟨"X"⟩, .var ⟨"Z"⟩]⟩,
      [⟨"edge", [.var ⟨"X"⟩, .var ⟨"Y"⟩]⟩,
        ⟨"edge", [.var ⟨"Y"⟩, .var ⟨"Z"⟩]⟩]⟩,
    .rule ⟨⟨"between", [.var ⟨"X"⟩]⟩,
      [⟨"link", [.const "a", .var ⟨"X"⟩]⟩,
        ⟨"link", [.var ⟨"X"⟩, .const "c"]⟩]⟩]⟩

def layer (name : String) : Nat :=
  if name = "between" then 2 else if name = "link" then 1 else 0

end Example

open Search (Logging)

variable {kb : KnowledgeBase} {settings : SearchSettings} {rank : String → Nat}

/-- Depth and rank together do not grow on the way down, so a goal that starts
within a level stays within it. -/
theorem KnowledgeBase.Ranked.logging (ranked : kb.Ranked rank) {level : Nat}
    (allowed : ∀ depth ≤ level, settings.allows depth) :
    Logging kb settings fun depth signature log =>
      depth + rank signature.1 ≤ level → log.Shallow level where
  additive _ _ :=
    ⟨fun _ => SearchLog.shallow_empty level,
      fun here there within => (here within).append (there within)⟩
  tried _ _ within := ⟨rfl, Nat.le_of_add_right_le within⟩
  givenUp _ cut within := absurd (allowed _ (Nat.le_of_add_right_le within)) cut
  compared _ _ _ _ _ := ⟨rfl, Nat.zero_le level⟩
  recorded _ _ _ _ := ⟨rfl, Nat.zero_le level⟩
  below {depth clause goal log} member inside shallow within := by
    have falls : rank goal.name < rank clause.head.name :=
      ranked clause member goal inside
    have deeper : depth + 1 + rank goal.name ≤ level := by
      change depth + rank clause.head.name ≤ level at within
      omega
    exact ⟨(shallow deeper).cutoffs, (shallow deeper).deepest⟩

namespace Resolver

open Search

/-- A search that may go as deep as its query ranks stays within the rank. -/
theorem search_shallow (ranked : kb.Ranked rank) (query : Predicate)
    (allowed : ∀ depth ≤ rank query.name, settings.allows depth) :
    (search kb settings query).Logs (·.Shallow (rank query.name)) := by
  intro generation run ended
  have within : 0 + rank query.signature.1 ≤ rank query.name := by
    rw [Nat.zero_add, Predicate.signature]
  exact search_logs (ranked.logging allowed) query generation run ended within

/-- Over a ranked knowledge base the search for a query ends. -/
theorem search_ends_of_ranked (ranked : kb.Ranked rank)
    (settings : SearchSettings) (query : Predicate) :
    (search kb settings query).Ends :=
  search_ends_of_nests (ranked.nests settings)
    (kb.clausesUpTo_lt_horizon rank query.name)

/-- A resolver, whatever it was asked before, answers a query if its search
ends. -/
theorem exists_resolve {r : Resolver} {query : Predicate}
    (ends : (search r.kb r.settings query).Ends) (path : Derivation) :
    ∃ solutions after, r.resolve query path = some (solutions, after) := by
  obtain ⟨run, ended⟩ := ends r.generation
  exact ⟨_, _, by rw [resolve, ended]; rfl⟩

/--
A query is answered under every depth limit.  If the names can be ranked so that
bodies rank below heads, it is also answered without a limit: no goal is given
up, none lies deeper than the name of the query ranks, and every limit that is
no lower leads to the same report.
-/
theorem resolve_terminates (r : Resolver) (query : Predicate) :
    (r.settings.maxDepth ≠ 0 → ∀ path, ∃ solutions after,
      r.resolve query path = some (solutions, after)) ∧
    ∀ rank : String → Nat, r.kb.Ranked rank →
      (∀ path, ∃ solutions after,
        r.resolve query path = some (solutions, after)) ∧
      ∀ mode, ∃ outcome,
        answer { kb := r.kb, settings := ⟨0, mode⟩ } query = some outcome ∧
        outcome.stats.cutoffs = 0 ∧
        outcome.stats.deepest ≤ rank query.name ∧
        ∀ limit : UInt64, max 1 (rank query.name) ≤ limit.toNat →
          answer { kb := r.kb, settings := ⟨limit, mode⟩ } query =
            some outcome := by
  refine ⟨fun limited => exists_resolve (search_ends r.kb limited query),
    fun rank ranked => ⟨exists_resolve (search_ends_of_ranked ranked _ query),
      fun mode => ?_⟩⟩
  obtain ⟨run, ended⟩ := search_ends_of_ranked ranked ⟨0, mode⟩ query 0
  have answered : answer { kb := r.kb, settings := ⟨0, mode⟩ } query =
      some (resolution query run) := by
    rw [answer_fresh, ended, Option.map_some]
  have shallow := search_shallow ranked query (fun _ _ => rfl) 0 run ended
  refine ⟨resolution query run, answered, shallow.cutoffs, shallow.deepest, ?_⟩
  intro limit enough
  have positive : limit ≠ 0 := by
    rintro rfl
    exact absurd enough (by simp)
  have reaches : rank query.name ≤ limit.toNat :=
    Nat.le_trans (Nat.le_max_right 1 _) enough
  have allowed : ∀ depth ≤ rank query.name,
      SearchSettings.allows ⟨limit, mode⟩ depth := by
    intro depth shallow
    simp [SearchSettings.allows, Nat.le_trans shallow reaches]
  obtain ⟨limited, ended', answered'⟩ : ∃ limited,
      search r.kb ⟨limit, mode⟩ query 0 = some limited ∧
      answer { kb := r.kb, settings := ⟨limit, mode⟩ } query =
        some (resolution query limited) :=
    exists_answer r.kb positive query
  have uncut := (search_shallow ranked query allowed 0 limited ended').cutoffs
  have unlimited : ∀ depth, SearchSettings.allows ⟨limit, mode⟩ depth →
      SearchSettings.allows ⟨0, mode⟩ depth :=
    fun _ _ => rfl
  rw [answered', ← answer_covers r.kb unlimited rfl answered' uncut, answered]

/-- Three layers of goals are as deep as the search for a node between two
others gets, so that a limit of two levels and no limit make no difference. -/
theorem resolve_terminates_between :
    Example.between.Ranked Example.layer ∧
    (∃ solutions after,
      resolve { kb := Example.between, settings := ⟨1, .threaded⟩ }
        ⟨"between", [.var ⟨"W"⟩]⟩ [] = some (solutions, after)) ∧
    ∃ outcome,
      answer { kb := Example.between, settings := ⟨0, .threaded⟩ }
        ⟨"between", [.var ⟨"W"⟩]⟩ = some outcome ∧
      outcome.solutions = [⟨"between", [.const "b"]⟩] ∧
      outcome.stats.cutoffs = 0 ∧ outcome.stats.deepest = 2 ∧
      answer { kb := Example.between, settings := ⟨2, .threaded⟩ }
        ⟨"between", [.var ⟨"W"⟩]⟩ = some outcome := by
  have ranked : Example.between.Ranked Example.layer := by decide
  obtain ⟨limited, terminates⟩ := resolve_terminates
    { kb := Example.between, settings := ⟨1, .threaded⟩ }
    ⟨"between", [.var ⟨"W"⟩]⟩
  obtain ⟨_, reports⟩ := terminates Example.layer ranked
  obtain ⟨outcome, answered, uncut, _, same⟩ := reports .threaded
  have found : (answer { kb := Example.between, settings := ⟨0, .threaded⟩ }
      ⟨"between", [.var ⟨"W"⟩]⟩).map
        (fun outcome => (outcome.solutions, outcome.stats.deepest)) =
          some ([⟨"between", [.const "b"]⟩], 2) := by
    decide +kernel
  rw [answered, Option.map_some, Option.some.injEq, Prod.mk.injEq] at found
  exact ⟨ranked, limited (by decide) [], outcome, answered, found.1, uncut,
    found.2, same 2 (by decide)⟩

end Resolver

end HornLogic
