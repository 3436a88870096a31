import HornLogic.Proofs.Search.Call
import HornLogic.Proofs.Search.ClauseChain

/-!
# Which clause a solution stems from

The search for a query tries the clauses of its name one after the other, and
each solution is found by one of them.  When a clause has led to a solution, a
derivation of one step is recorded: the head of the clause.  Whatever is
recorded while the body of a rule is proved goes under the head of the rule and
is longer.  The derivations of one step therefore name, in order, the clauses
that the solutions stem from.
-/

namespace HornLogic

namespace KnowledgeBase

/-- The clauses tried for goals of a name, with their places. -/
def placed (kb : KnowledgeBase) (name : String) : List (Clause × Nat) :=
  kb.toList.zipIdx.filter fun entry => entry.1.name = name

theorem map_fst_placed (kb : KnowledgeBase) (name : String) :
    (kb.placed name).map Prod.fst = kb.named name := by
  have same : (fun entry : Clause × Nat => decide (entry.1.name = name)) =
      (fun clause : Clause => decide (clause.name = name)) ∘ Prod.fst := rfl
  rw [placed, named, same, ← List.filter_map, List.zipIdx_map_fst]

theorem getElem?_of_mem_placed {kb : KnowledgeBase} {name : String}
    {entry : Clause × Nat} (member : entry ∈ kb.placed name) :
    kb.toList[entry.2]? = some entry.1 :=
  List.mem_zipIdx_iff_getElem?.mp (List.mem_of_mem_filter member)

/-- The clauses are tried in the order of their places. -/
theorem placed_ascending (kb : KnowledgeBase) (name : String) :
    (kb.placed name).Pairwise fun entry later => entry.2 < later.2 := by
  refine List.Pairwise.filter _ (List.pairwise_map.mp ?_)
  rw [List.zipIdx_map_snd]
  exact List.pairwise_lt_range'

end KnowledgeBase

namespace SearchLog

def immediate (log : SearchLog) : List Derivation :=
  log.derivations.filter fun derivation => derivation.length = 1

@[simp]
theorem immediate_append (first second : SearchLog) :
    (first ++ second).immediate = first.immediate ++ second.immediate :=
  List.filter_append ..

theorem additive_nothing_immediate :
    Additive fun log => log.immediate = [] where
  empty := rfl
  append here there := by rw [immediate_append, here, there, List.append_nil]

def Stepping (log : SearchLog) : Prop :=
  ∀ derivation ∈ log.derivations, derivation ≠ []

theorem additive_stepping : Additive Stepping where
  empty := List.forall_mem_nil _
  append here there := List.forall_mem_append.mpr ⟨here, there⟩

/-- Chains of clauses have steps. -/
theorem Chained.stepping {kb : KnowledgeBase} {settings : SearchSettings}
    {depth : Nat} {signature : Signature} {log : SearchLog}
    (chained : log.Chained kb settings depth signature) : log.Stepping := by
  intro derivation recorded empty
  obtain ⟨first, starts, _⟩ := (chained derivation recorded).1.starts
  rw [empty] at starts
  cases starts

theorem Stepping.immediate_under {log : SearchLog} (stepping : log.Stepping)
    (head : Predicate) : (log.under [head]).immediate = [] := by
  refine List.filter_eq_nil_iff.mpr ?_
  intro longer recorded single
  obtain ⟨derivation, inner, rfl⟩ := List.mem_map.mp recorded
  have empty : derivation = [] := by simpa using single
  exact stepping derivation inner empty

end SearchLog

/-! ## What is recorded for the solutions by one clause -/

namespace Search

variable {α β : Type}

/-- For each result a derivation of one step is recorded, the given head. -/
def Credits (head : Predicate) (search : Search (List α)) : Prop :=
  ∀ generation run, search generation = some run →
    run.log.immediate = List.replicate run.value.length [head]

namespace Credits

variable {head : Predicate}

protected theorem nil : Credits head (pure [] : Search (List α)) := by
  intro generation run ended
  cases ended
  rfl

theorem single (a : α) : Credits head (record [head] >>= fun _ => pure [a]) := by
  intro generation run ended
  cases ended
  rfl

/-- Results may be rewritten afterwards. -/
theorem map {search : Search (List α)} (credits : Credits head search)
    (f : α → β) :
    Credits head (search >>= fun found => pure (found.map f)) := by
  intro generation run ended
  obtain ⟨first, last, hfirst, hlast, rfl⟩ := bind_eq_some.mp ended
  cases hlast
  rw [SearchLog.append_empty, List.length_map]
  exact credits generation first hfirst

/-- Steps that record no derivation of one step may be taken before. -/
theorem after {step : Search α} {next : α → Search (List β)}
    (silent : step.Logs fun log => log.immediate = [])
    (credits : ∀ a, Credits head (next a)) : Credits head (step >>= next) := by
  intro generation run ended
  obtain ⟨first, last, hfirst, hlast, rfl⟩ := bind_eq_some.mp ended
  rw [SearchLog.immediate_append, silent generation first hfirst,
    List.nil_append]
  exact credits first.value first.generation last hlast

end Credits

/-- What is recorded under a head has more than one step. -/
theorem Logs.silent_under {search : Search α} (stepping : search.Logs (·.Stepping))
    (head : Predicate) :
    (Search.under head search).Logs fun log => log.immediate = [] :=
  .under fun generation run ended =>
    (stepping generation run ended).immediate_under head

namespace Threaded

variable {solve : Predicate → Substitution → Search (List Substitution)}
  (stepping : ∀ goal bindings, (solve goal bindings).Logs (·.Stepping))
include stepping

theorem useClause_credits (goal : Predicate) (bindings : Substitution)
    (clause : Clause) :
    Credits clause.head (useClause solve goal bindings clause) := by
  have additive := SearchLog.additive_nothing_immediate
  cases clause with
  | fact fact =>
      have fresh : (freshFact fact).Logs fun log => log.immediate = [] := by
        rw [freshFact]
        split
        · exact .pure additive _
        · exact .bind additive (.freshGeneration additive) fun _ =>
            .pure additive _
      rw [useClause, useFact_eq]
      refine .after fresh fun head => .after (.count rfl) fun _ => ?_
      cases goal.unify head with
      | none => exact .nil
      | some unifier => exact .single _
  | rule rule =>
      rw [useClause, useRule_eq]
      refine .after (.freshGeneration additive) fun generation =>
        .after (.count rfl) fun _ => ?_
      cases goal.unify (rule.head.renamed generation) with
      | none => exact .nil
      | some unifier =>
          have proved : (conjunction solve (rule.renamed generation).body
              (bindings.merged unifier)).Logs (·.Stepping) :=
            conjunction_logs SearchLog.additive_stepping
              (fun goal _ => stepping goal) _
          -- What is left to record has one step for each proof.
          refine .after (.silent_under proved _) fun proofs => ?_
          intro drawn run ended
          obtain ⟨_, last, hrecorded, hlast, rfl⟩ := bind_eq_some.mp ended
          rw [recordEach_run] at hrecorded
          cases hrecorded
          cases hlast
          rw [SearchLog.append_empty]
          exact List.filter_eq_self.mpr fun derivation member => by
            rw [List.eq_of_mem_replicate member]
            rfl

end Threaded

namespace SinglePass

variable {solve : Predicate → Search (List Predicate)}
  (stepping : ∀ goal, (solve goal).Logs (·.Stepping))
include stepping

theorem useClause_credits (query : Predicate) (clause : Clause) :
    Credits clause.head (useClause solve query clause) := by
  rw [useClause_eq]
  refine .after (.count rfl) fun _ => ?_
  cases query.unify clause.head with
  | none => exact .nil
  | some unifier =>
      cases clause with
      | fact fact => exact .single _
      | rule rule =>
          have proved : (allProved solve (rule.body.map unifier.apply)).Logs
              (·.Stepping) :=
            allProved_logs SearchLog.additive_stepping
              (fun goal _ => stepping goal)
          refine .after (.silent_under proved _) fun proved => ?_
          split
          · exact .single _
          · exact .nil

end SinglePass

/-- Results may be rewritten where they are found. -/
theorem each_map {γ : Type} (search : α → Search (List β)) (f : β → γ)
    (inputs : List α) :
    (each search inputs >>= fun found => pure (found.map f)) =
      each (fun a => search a >>= fun found => pure (found.map f)) inputs := by
  induction inputs with
  | nil => rfl
  | cons a rest ih =>
      rw [each, each, ← ih]
      simp only [bind_assoc, pure_bind, List.map_append]

end Search

open Search (Credits)

structure Trial where
  clause : Clause
  /-- The place of the clause in the knowledge base. -/
  place : Nat
  /-- The generation drawn last before the clause was tried. -/
  generation : Nat
  solutions : List Predicate

namespace Trial

/-- The solutions of trials in order, each with the trial it was found in. -/
def produced (tried : List Trial) : List (Trial × Predicate) :=
  tried.flatMap fun trial => trial.solutions.map (trial, ·)

theorem produced_cons (trial : Trial) (tried : List Trial) :
    produced (trial :: tried) =
      trial.solutions.map (trial, ·) ++ produced tried :=
  List.flatMap_cons

/-- Solutions stand in the order of the trials they were found in. -/
theorem pairwise_produced {tried : List Trial}
    (ascending : tried.Pairwise fun trial later => trial.place < later.place) :
    (produced tried).Pairwise fun found later =>
      found.1.place ≤ later.1.place := by
  refine List.pairwise_flatMap.mpr ⟨?_, ascending.imp ?_⟩
  · intro trial _
    exact List.pairwise_map.mpr (List.pairwise_of_forall fun _ _ => Nat.le_refl _)
  · intro trial later before found here found' there
    obtain ⟨_, _, rfl⟩ := List.mem_map.mp here
    obtain ⟨_, _, rfl⟩ := List.mem_map.mp there
    exact Nat.le_of_lt before

end Trial

/-! ## The search by one clause -/

namespace Resolver

variable {kb : KnowledgeBase} {settings : SearchSettings} {query : Predicate}

def searchBy (kb : KnowledgeBase) (settings : SearchSettings)
    (query : Predicate) (clause : Clause) : Search (List Predicate) :=
  match settings.conjunction with
  | .threaded => do
      let proofs ← Search.Threaded.useClause
        (Search.Threaded.solve kb settings (kb.horizon - 1) 1) query .empty clause
      pure (proofs.map (·.answer query))
  | .singlePass =>
      Search.SinglePass.useClause
        (Search.SinglePass.solve kb settings (kb.horizon - 1) 1) query clause

theorem searchBy_threaded (threaded : settings.conjunction = .threaded) :
    searchBy kb settings query = fun clause =>
      Search.Threaded.useClause
        (Search.Threaded.solve kb settings (kb.horizon - 1) 1) query .empty
        clause >>= fun proofs => pure (proofs.map (·.answer query)) := by
  funext clause
  rw [searchBy, threaded]

theorem searchBy_singlePass (single : settings.conjunction = .singlePass) :
    searchBy kb settings query = Search.SinglePass.useClause
      (Search.SinglePass.solve kb settings (kb.horizon - 1) 1) query := by
  funext clause
  rw [searchBy, single]

/-- The clauses of the name of a query are tried one after the other. -/
theorem search_eq_each (kb : KnowledgeBase) (settings : SearchSettings)
    (query : Predicate) :
    search kb settings query = Search.count { goals := 1 } >>= fun _ =>
      Search.each (searchBy kb settings query) (kb.named query.name) := by
  have allowed : settings.allows 0 := SearchSettings.allows_zero
  cases mode : settings.conjunction with
  | threaded =>
      have started := Search.Threaded.solve_succ kb settings (kb.horizon - 1) 0
        query .empty
      rw [if_pos allowed, Substitution.resolve_empty] at started
      rw [search, mode, searchBy_threaded mode, ← Search.each_map, ← bind_assoc,
        ← started]
      rfl
  | singlePass =>
      have started := Search.SinglePass.solve_succ kb settings (kb.horizon - 1) 0
        query
      rw [if_pos allowed] at started
      rw [search, mode, searchBy_singlePass mode, ← started]
      rfl

/-- What one clause finds is credited to its head. -/
theorem searchBy_credits (kb : KnowledgeBase) (settings : SearchSettings)
    (query : Predicate) (clause : Clause) :
    Credits clause.head (searchBy kb settings query clause) := by
  have accounting := SearchLog.chained_accounting kb settings
  cases mode : settings.conjunction with
  | threaded =>
      rw [searchBy_threaded mode]
      refine (Search.Threaded.useClause_credits ?_ _ _ _).map _
      intro goal bindings generation run ended
      exact (Search.Threaded.solve_logs accounting _ _ _ _ _ _ ended).stepping
  | singlePass =>
      rw [searchBy_singlePass mode]
      refine Search.SinglePass.useClause_credits ?_ _ _
      intro goal generation run ended
      exact (Search.SinglePass.solve_logs accounting _ _ _ _ _ ended).stepping

/--
What a clause contributes to the solutions of a query.  A rule of the threaded
search has one solution for each proof of its renamed body.  Every other clause
has one solution at most.
-/
def Contributes (kb : KnowledgeBase) (settings : SearchSettings)
    (query : Predicate) (generation : Nat) (solutions : List Predicate) :
    Clause → Prop
  | .fact _ => solutions.length ≤ 1
  | .rule rule =>
      match settings.conjunction with
      | .singlePass => solutions.length ≤ 1
      | .threaded =>
          match query.unify (rule.renamed (generation + 1)).head with
          | none => solutions = []
          | some unifier => ∃ proofs,
              (Call.joint 1 (rule.renamed (generation + 1)).body
                (Substitution.empty.merged unifier) (generation + 1)).Returns
                  kb settings proofs ∧
              solutions = proofs.map (·.answer query)

theorem contributes_of_searchBy {clause : Clause} {generation : Nat}
    {run : SearchRun (List Predicate)}
    (ended : searchBy kb settings query clause generation = some run) :
    Contributes kb settings query generation run.value clause := by
  cases mode : settings.conjunction with
  | threaded =>
      rw [searchBy_threaded mode] at ended
      obtain ⟨proofs, last, hproofs, hlast, rfl⟩ :=
        Search.bind_eq_some.mp ended
      cases hlast
      cases clause with
      | fact fact =>
          rw [Contributes, List.length_map]
          rcases Search.Threaded.useFact_run hproofs with nothing |
            ⟨_, _, _, single⟩
          · exact nothing ▸ Nat.zero_le 1
          · exact single ▸ Nat.le_refl 1
      | rule rule =>
          rw [Contributes, mode]
          rcases Search.Threaded.useRule_run hproofs with ⟨clash, nothing⟩ |
            ⟨u, body, unified, hbody, same⟩
          · simp only [clash, nothing, List.map_nil]
          · simp only [unified]
            exact ⟨body.value, ⟨_, body, hbody, rfl⟩, by rw [same]⟩
  | singlePass =>
      rw [searchBy_singlePass mode] at ended
      have few : run.value.length ≤ 1 := by
        rcases Search.SinglePass.useClause_run ended with nothing | ⟨_, _, same⟩
        · exact nothing ▸ Nat.zero_le 1
        · exact same ▸ Nat.le_refl 1
      cases clause with
      | fact fact => exact few
      | rule rule =>
          rw [Contributes, mode]
          exact few

/-! ## The trials of a query -/

/-- Clauses are tried one after the other, each after the generations that were
drawn for those in front of it. -/
inductive Tries (kb : KnowledgeBase) (settings : SearchSettings)
    (query : Predicate) : Nat → List (Clause × Nat) → List Trial → Prop where
  | nil {generation : Nat} : Tries kb settings query generation [] []
  | cons {generation place : Nat} {clause : Clause}
      {rest : List (Clause × Nat)} {run : SearchRun (List Predicate)}
      {tried : List Trial}
      (ended : searchBy kb settings query clause generation = some run)
      (others : Tries kb settings query run.generation rest tried) :
      Tries kb settings query generation ((clause, place) :: rest)
        (⟨clause, place, generation, run.value⟩ :: tried)

/-- The search by some clauses consists of a trial of each of them.  Its
derivations of one step name the clauses that the solutions stem from. -/
theorem exists_tries {entries : List (Clause × Nat)} {generation : Nat}
    {run : SearchRun (List Predicate)}
    (ended : Search.each (searchBy kb settings query) (entries.map Prod.fst)
      generation = some run) :
    ∃ tried, Tries kb settings query generation entries tried ∧
      run.value = (Trial.produced tried).map Prod.snd ∧
      run.log.immediate =
        (Trial.produced tried).map fun found => [found.1.clause.head] := by
  induction entries generalizing generation run with
  | nil =>
      cases ended
      exact ⟨[], .nil, rfl, rfl⟩
  | cons entry rest ih =>
      obtain ⟨clause, place⟩ := entry
      obtain ⟨here, others, hhere, hothers, rfl⟩ := Search.bind_eq_some.mp ended
      obtain ⟨more, last, hmore, hlast, rfl⟩ := Search.bind_eq_some.mp hothers
      cases hlast
      obtain ⟨tried, conducted, values, credited⟩ := ih hmore
      refine ⟨_, .cons hhere conducted, ?_, ?_⟩
      · rw [Trial.produced_cons, List.map_append, ← values, List.map_map]
        exact congrArg (· ++ more.value) (List.map_id here.value).symm
      · rw [SearchLog.append_empty, SearchLog.immediate_append, credited,
          searchBy_credits kb settings query clause generation here hhere,
          Trial.produced_cons, List.map_append, List.map_map,
          ← List.map_const']
        rfl

namespace Tries

variable {generation : Nat} {entries : List (Clause × Nat)} {tried : List Trial}

/-- There is one trial for each clause. -/
theorem entries_eq (tries : Tries kb settings query generation entries tried) :
    tried.map (fun trial => (trial.clause, trial.place)) = entries := by
  induction tries with
  | nil => rfl
  | cons _ _ ih => rw [List.map_cons, ih]

/-- The solutions of a trial are those that its clause finds. -/
theorem searched (tries : Tries kb settings query generation entries tried) :
    ∀ trial ∈ tried, ∃ run,
      searchBy kb settings query trial.clause trial.generation = some run ∧
        run.value = trial.solutions := by
  induction tries with
  | nil => exact List.forall_mem_nil _
  | cons ended _ ih => exact List.forall_mem_cons.mpr ⟨⟨_, ended, rfl⟩, ih⟩

/-- The trials of the clauses of a name are made in the order of the clauses. -/
theorem ascending {name : String}
    (tries : Tries kb settings query generation (kb.placed name) tried) :
    tried.Pairwise fun trial later => trial.place < later.place := by
  have placed := kb.placed_ascending name
  rwa [← tries.entries_eq, List.pairwise_map] at placed

end Tries

/-- The search for a query tries the clauses of its name. -/
theorem tries_of_search {generation : Nat} {run : SearchRun (List Predicate)}
    (ended : search kb settings query generation = some run) :
    ∃ tried, Tries kb settings query generation (kb.placed query.name) tried ∧
      run.value = (Trial.produced tried).map Prod.snd ∧
      run.log.immediate =
        (Trial.produced tried).map fun found => [found.1.clause.head] := by
  rw [search_eq_each] at ended
  obtain ⟨_, rest, hcount, hrest, rfl⟩ := Search.bind_eq_some.mp ended
  cases hcount
  rw [← KnowledgeBase.map_fst_placed] at hrest
  obtain ⟨tried, tries, values, credited⟩ := exists_tries hrest
  exact ⟨tried, tries, values, credited⟩

/-- There are as many solutions as derivations of one step. -/
theorem length_immediate_of_search {generation : Nat}
    {run : SearchRun (List Predicate)}
    (ended : search kb settings query generation = some run) :
    run.log.immediate.length = run.value.length := by
  obtain ⟨tried, _, values, credited⟩ := tries_of_search ended
  rw [values, credited, List.length_map, List.length_map]

/-- The clause of a trial stands at its place and contributes the solutions. -/
structure ProperTrial (kb : KnowledgeBase) (settings : SearchSettings)
    (query : Predicate) (trial : Trial) : Prop where
  stands : kb.toList[trial.place]? = some trial.clause
  contributes : Contributes kb settings query trial.generation trial.solutions
    trial.clause

theorem Tries.proper {generation : Nat} {name : String} {tried : List Trial}
    (tries : Tries kb settings query generation (kb.placed name) tried) :
    ∀ trial ∈ tried, ProperTrial kb settings query trial := by
  intro trial member
  obtain ⟨run, ended, found⟩ := tries.searched trial member
  have entry : (trial.clause, trial.place) ∈ kb.placed name := by
    rw [← tries.entries_eq]
    exact List.mem_map_of_mem member
  constructor
  · exact KnowledgeBase.getElem?_of_mem_placed entry
  · rw [← found]
    exact contributes_of_searchBy ended

/--
Every derivation that is recorded for a query has at least one step more than
the path of the query.  Those with one step more name, in order, the clauses
that the solutions stem from.  These clauses stand in the order of the knowledge
base and have the signature of the query.
-/
theorem solutions_attributed {r after : Resolver} {query : Predicate}
    {path : Derivation} {solutions : List Predicate}
    (answered : r.resolve query path = some (solutions, after)) :
    ∃ tried recorded,
      Tries r.kb r.settings query r.generation (r.kb.placed query.name) tried ∧
      solutions = (Trial.produced tried).map Prod.snd ∧
      after.log.derivations = r.log.derivations ++ recorded ∧
      (∀ derivation ∈ recorded, ∃ steps, steps ≠ [] ∧
        derivation = path ++ steps) ∧
      (recorded.filter fun derivation => derivation.length = path.length + 1) =
        (Trial.produced tried).map (fun found =>
          path ++ [found.1.clause.head]) ∧
      ((Trial.produced tried).Pairwise fun found later =>
        found.1.place ≤ later.1.place) ∧
      (∀ found ∈ Trial.produced tried,
        found.1.clause.head.signature = query.signature) ∧
      (tried.Pairwise fun trial later => trial.place < later.place) ∧
      ∀ trial ∈ tried, ProperTrial r.kb r.settings query trial := by
  obtain ⟨run, ended, rfl, rfl⟩ := search_of_resolve answered
  obtain ⟨tried, tries, values, credited⟩ := tries_of_search ended
  have chained := search_accounts
    (SearchLog.chained_accounting r.kb r.settings) query _ run ended
  have longer : (run.log.derivations.map (path ++ ·)).filter
      (fun derivation => derivation.length = path.length + 1) =
        run.log.immediate.map (path ++ ·) := by
    rw [List.filter_map, SearchLog.immediate]
    simp [Function.comp_def]
  refine ⟨tried, run.log.derivations.map (path ++ ·), tries, values, rfl, ?_,
    ?_, Trial.pairwise_produced tries.ascending, ?_, tries.ascending,
    tries.proper⟩
  · intro derivation member
    obtain ⟨steps, recorded, rfl⟩ := List.mem_map.mp member
    exact ⟨steps, chained.stepping steps recorded, rfl⟩
  · rw [longer, credited, List.map_map]
    rfl
  · -- A derivation of one step is a chain of one clause for the query.
    intro found member
    have recorded : [found.1.clause.head] ∈ run.log.immediate := by
      rw [credited]
      exact List.mem_map_of_mem member
    obtain ⟨first, starts, answers⟩ :=
      (chained _ (List.mem_of_mem_filter recorded)).1.starts
    cases starts
    exact answers

/-- Of the seven derivations for the two paths, two have one step more than the
path of the query: the first rule found one path and the second the other. -/
theorem solutions_attributed_paths :
    ∃ solutions after tried,
      resolve { kb := Example.paths, settings := { maxDepth := 2 } }
        Example.query [⟨"why", []⟩] = some (solutions, after) ∧
      solutions = [⟨"path", [.const "a", .const "b"]⟩,
        ⟨"path", [.const "a", .const "c"]⟩] ∧
      solutions = (Trial.produced tried).map Prod.snd ∧
      after.log.derivations.length = 7 ∧
      (Trial.produced tried).map (fun found =>
          [⟨"why", []⟩] ++ [found.1.clause.head]) =
        [[⟨"why", []⟩, ⟨"path", [.var ⟨"X"⟩, .var ⟨"Y"⟩]⟩],
          [⟨"why", []⟩, ⟨"path", [.var ⟨"X"⟩, .var ⟨"Z"⟩]⟩]] := by
  have found : (resolve
      { kb := Example.paths, settings := { maxDepth := 2 } } Example.query
      [⟨"why", []⟩]).map (fun answer => (answer.1,
        answer.2.log.derivations.length,
        answer.2.log.derivations.filter fun derivation =>
          derivation.length = 2)) =
      some ([⟨"path", [.const "a", .const "b"]⟩,
          ⟨"path", [.const "a", .const "c"]⟩], 7,
        [[⟨"why", []⟩, ⟨"path", [.var ⟨"X"⟩, .var ⟨"Y"⟩]⟩],
          [⟨"why", []⟩, ⟨"path", [.var ⟨"X"⟩, .var ⟨"Z"⟩]⟩]]) := by
    decide +kernel
  obtain ⟨⟨solutions, after⟩, answered, reported⟩ :=
    Option.map_eq_some_iff.mp found
  obtain ⟨two, seven, short⟩ := by
    simpa only [Prod.mk.injEq] using reported
  obtain ⟨tried, recorded, _, stem, grown, _, credited, _⟩ :=
    solutions_attributed answered
  have all : after.log.derivations = recorded := grown
  refine ⟨solutions, after, tried, answered, two, stem, seven, ?_⟩
  rw [all] at short
  exact credited.symm.trans short

end Resolver

end HornLogic
