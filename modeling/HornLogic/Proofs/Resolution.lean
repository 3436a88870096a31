import HornLogic.Proofs.Json.Fields
import HornLogic.Resolution

/-!
# Resolutions read back

What can be read of the record of an answered query: the query, the solutions, the
derivations and the statistics, and nothing else.  A record does not tell a variable from
a constant, so a predicate is given by its name and the names of its arguments.
-/

namespace HornLogic

open Json (Made)

/-! ## Predicates -/

structure Predicate.Record where
  name : String
  args : List String
deriving DecidableEq, Inhabited

def Predicate.record (p : Predicate) : Predicate.Record :=
  ⟨p.name, p.args.map Term.name⟩

def Predicate.Record.ofJson? (value : Json) : Option Predicate.Record := do
  match ← value.members? ["name", "args"] with
  | [name, args] =>
      let name ← name.string?
      let args ← args.items? Json.string?
      some ⟨name, args⟩
  | _ => none

theorem Predicate.made_json (p : Predicate) : Made p.json := by
  have args : Made (.array (p.args.map fun arg => .ofString arg.name)) :=
    .array (List.forall_mem_map.mpr fun arg _ => .ofString arg.name)
  exact .ofMembers (List.forall_mem_cons.mpr ⟨.ofString p.name,
    List.forall_mem_singleton.mpr args⟩)

theorem Predicate.ofJson?_json (p : Predicate) : Record.ofJson? p.json = some p.record := by
  have members : p.json.members? ["name", "args"] =
      some [.ofString p.name, .array (p.args.map fun arg => .ofString arg.name)] :=
    Json.members?_ofMembers rfl rfl
  have args : Json.items? Json.string? (.array (p.args.map fun arg => .ofString arg.name)) =
      some (p.args.map Term.name) :=
    Json.items?_map (fun (arg : Term) => Json.string?_ofString arg.name) p.args
  rw [Record.ofJson?, members]
  simp only [Option.bind_eq_bind, Option.bind_some, Json.string?_ofString, args, record]

/-! ## Statistics -/

def Stats.ofJson? (value : Json) : Option Stats := do
  let counters ← value.members? ["goals_attempted", "unifications_attempted",
    "unifications_succeeded", "derivations", "solutions", "depth_cutoffs",
    "max_depth_reached"]
  match ← counters.mapM Json.nat? with
  | [goals, attempted, succeeded, derivations, solutions, cutoffs, deepest] =>
      some ⟨goals, attempted, succeeded, derivations, solutions, cutoffs, deepest⟩
  | _ => none

theorem Stats.made_json (stats : Stats) : Made stats.json := by
  refine .ofMembers ?_
  simp [Made.ofNat]

theorem Stats.ofJson?_json (stats : Stats) : ofJson? stats.json = some stats := by
  have members : stats.json.members? ["goals_attempted", "unifications_attempted",
      "unifications_succeeded", "derivations", "solutions", "depth_cutoffs",
      "max_depth_reached"] = some ([stats.goals, stats.attempted, stats.succeeded,
        stats.derivations, stats.solutions, stats.cutoffs, stats.deepest].map .ofNat) :=
    Json.members?_ofMembers rfl rfl
  rw [ofJson?, members]
  simp

/-! ## Resolutions -/

namespace Resolution

structure Record where
  query : Predicate.Record
  solutions : List Predicate.Record
  derivations : List (List Predicate.Record)
  stats : Stats
deriving DecidableEq, Inhabited

def record (r : Resolution) : Record where
  query := r.query.record
  solutions := r.solutions.map Predicate.record
  derivations := r.derivations.map fun derivation => derivation.map Predicate.record
  stats := r.stats

namespace Record

def ofJson? (value : Json) : Option Record := do
  match ← value.members? ["query", "solutions", "derivations", "stats"] with
  | [query, solutions, derivations, stats] =>
      let query ← Predicate.Record.ofJson? query
      let solutions ← solutions.items? Predicate.Record.ofJson?
      let derivations ← derivations.items? (Json.items? Predicate.Record.ofJson?)
      let stats ← Stats.ofJson? stats
      some ⟨query, solutions, derivations, stats⟩
  | _ => none

def read? (text : String) : Option Record :=
  (Json.read? text).bind ofJson?

end Record

theorem made_json (r : Resolution) : Made r.json := by
  have steps (derivation : Derivation) : Made derivation.json :=
    .array (List.forall_mem_map.mpr fun step _ => step.made_json)
  have solutions : Made (.array (r.solutions.map Predicate.json)) :=
    .array (List.forall_mem_map.mpr fun solution _ => solution.made_json)
  have derivations : Made (.array (r.derivations.map Derivation.json)) :=
    .array (List.forall_mem_map.mpr fun derivation _ => steps derivation)
  refine .ofMembers ?_
  simp only [List.forall_mem_cons]
  exact ⟨r.query.made_json, solutions, derivations, r.stats.made_json,
    List.forall_mem_nil _⟩

theorem ofJson?_json (r : Resolution) : Record.ofJson? r.json = some r.record := by
  have members : r.json.members? ["query", "solutions", "derivations", "stats"] =
      some [r.query.json, .array (r.solutions.map Predicate.json),
        .array (r.derivations.map Derivation.json), r.stats.json] :=
    Json.members?_ofMembers rfl rfl
  have solutions : Json.items? Predicate.Record.ofJson?
      (.array (r.solutions.map Predicate.json)) = some (r.solutions.map Predicate.record) :=
    Json.items?_map Predicate.ofJson?_json r.solutions
  have derivations : Json.items? (Json.items? Predicate.Record.ofJson?)
      (.array (r.derivations.map Derivation.json)) =
        some (r.derivations.map fun derivation => derivation.map Predicate.record) :=
    Json.items?_map (Json.items?_map Predicate.ofJson?_json) r.derivations
  rw [Record.ofJson?, members]
  simp only [Option.bind_eq_bind, Option.bind_some, Predicate.ofJson?_json, solutions,
    derivations, Stats.ofJson?_json, record]

/-- The record of an answered query is read back from its line. -/
theorem read?_record (r : Resolution) : Record.read? r.json.render = some r.record := by
  rw [Record.read?, Json.read?_render r.made_json, Option.bind_some, ofJson?_json]

end Resolution

end HornLogic
