import HornLogic.Proofs.Search.Branching

/-!
# The goal-stack interpreter

The textbook interpreter keeps a stack of goals with their depths and one
substitution, and follows one branch to its end before it turns to the next.
The threaded search collects the results for a goal before it starts on the
next goal, so the two rename clauses into different generations.  For a plain
query both report the same answers in the same order.
-/

namespace HornLogic.Search.GoalStack

open Variable (regenerate Keeps advance advance_next keeps_advance)

/-- Goals with their depths, the next one in front. -/
abbrev Stack := List (Predicate × Nat)

def bodyAt (clause : Clause) (generation depth : Nat) : Stack :=
  clause.body.map fun goal => (goal.renamed generation, depth)

/-- Use a clause for a goal and go on with its body in front of the stack. -/
def useClause (continue' : Stack → Substitution → Search (List Predicate))
    (goal : Predicate) (depth : Nat) (rest : Stack) (bindings : Substitution)
    (clause : Clause) : Search (List Predicate) := do
  let generation ← freshGeneration
  match (bindings.resolve goal).unify (clause.head.renamed generation) with
  | none => pure []
  | some unifier =>
      continue' (bodyAt clause generation (depth + 1) ++ rest)
        (bindings.merged unifier)

/--
The answers to a query from a stack and a substitution.  The first goal of the
stack fails below the depth limit; else the clauses of its name are tried in
order.  `fuel` bounds the number of goals taken from the stack on a branch.
-/
def answers (kb : KnowledgeBase) (limit : Nat) (query : Predicate) :
    Nat → Stack → Substitution → Search (List Predicate)
  | 0, _, _ => endless
  | _ + 1, [], bindings => pure [bindings.answer query]
  | fuel + 1, (goal, depth) :: rest, bindings =>
      if depth ≤ limit then
        each (useClause (answers kb limit query fuel) goal depth rest bindings)
          (kb.named goal.name)
      else
        pure []

def image (shift : Equiv.Perm Nat) (stack : Stack) : Stack :=
  stack.map fun entry => (entry.1.relabel (regenerate shift), entry.2)

def Known (stack : Stack) (drawn : Nat) (shift : Equiv.Perm Nat)
    (generation : Nat) : Prop :=
  ∀ entry ∈ stack, entry.1.Known drawn shift generation

/-- Numbers that are kept show a known stack by the same goals. -/
theorem image_eq {stack : Stack} {drawn generation : Nat}
    {shift shift' : Equiv.Perm Nat}
    (known : Known stack drawn shift generation)
    (keeps : Keeps drawn generation shift shift') :
    image shift' stack = image shift stack := by
  apply List.map_congr_left
  intro entry member
  rw [(known entry member).relabel_eq keeps]

theorem image_bodyAt (clause : Clause) (shift : Equiv.Perm Nat)
    (drawn depth : Nat) :
    image shift (bodyAt clause drawn depth) =
      bodyAt clause (shift drawn) depth := by
  simp [image, bodyAt]

theorem image_append (shift : Equiv.Perm Nat) (first second : Stack) :
    image shift (first ++ second) = image shift first ++ image shift second :=
  List.map_append

theorem known_bodyAt (clause : Clause) {shift : Equiv.Perm Nat}
    {drawn generation : Nat} (number : shift drawn = generation)
    (depth : Nat) : Known (bodyAt clause drawn depth) drawn shift generation := by
  intro entry member
  obtain ⟨goal, _, rfl⟩ := List.mem_map.mp member
  exact goal.known_renamed number

/-- With enough fuel the property holds. -/
def Eventually (property : Nat → Prop) : Prop :=
  ∃ least, ∀ fuel, least ≤ fuel → property fuel

namespace Eventually

variable {property other : Nat → Prop}

theorem always (holds : ∀ fuel, property fuel) : Eventually property :=
  ⟨0, fun fuel _ => holds fuel⟩

theorem imp (eventually : Eventually property)
    (implies : ∀ fuel, property fuel → other fuel) : Eventually other := by
  obtain ⟨least, holds⟩ := eventually
  exact ⟨least, fun fuel enough => implies fuel (holds fuel enough)⟩

theorem and (left : Eventually property) (right : Eventually other) :
    Eventually fun fuel => property fuel ∧ other fuel := by
  obtain ⟨least, holds⟩ := left
  obtain ⟨least', holds'⟩ := right
  exact ⟨max least least', fun fuel enough =>
    ⟨holds fuel (by omega), holds' fuel (by omega)⟩⟩

/-- One unit of fuel may be spent first. -/
theorem of_succ (eventually : Eventually fun fuel => property (fuel + 1)) :
    Eventually property := by
  obtain ⟨least, holds⟩ := eventually
  refine ⟨least + 1, fun fuel enough => ?_⟩
  cases fuel with
  | zero => cases enough
  | succ fuel => exact holds fuel (Nat.le_of_succ_le_succ enough)

end Eventually

section Reporting

variable (kb : KnowledgeBase) (limit : Nat) (query : Predicate)

/-- From a stack and wherever the branch appears, the interpreter reports the
answers. -/
def Reports (stack : Stack) (b : Branch) (found : List Predicate) : Prop :=
  Eventually fun fuel => ∀ shift s generation,
    b.Appears shift s generation → Known stack b.drawn shift generation →
      (answers kb limit query fuel (image shift stack) s).Yields generation
        found

inductive ReportsAll (stack : Stack) : List Branch → List Predicate → Prop where
  | nil : ReportsAll stack [] []
  | cons {b : Branch} {more : List Branch} {found others : List Predicate}
      (first : Reports kb limit query stack b found)
      (rest : ReportsAll stack more others) :
      ReportsAll stack (b :: more) (found ++ others)

variable {kb : KnowledgeBase} {limit : Nat} {query : Predicate} {stack : Stack}

/-- Branches in two parts report in two parts. -/
theorem ReportsAll.split {first second : List Branch} {found : List Predicate}
    (reports : ReportsAll kb limit query stack (first ++ second) found) :
    ∃ before after, ReportsAll kb limit query stack first before ∧
      ReportsAll kb limit query stack second after ∧ found = before ++ after := by
  induction first generalizing found with
  | nil => exact ⟨[], found, .nil, reports, rfl⟩
  | cons b more ih =>
      cases reports with
      | @cons _ _ here others head rest =>
          obtain ⟨before, after, left, right, rfl⟩ := ih rest
          exact ⟨here ++ before, after, .cons head left, right,
            (List.append_assoc ..).symm⟩

theorem ReportsAll.single {b : Branch} {found : List Predicate}
    (reports : ReportsAll kb limit query stack [b] found) :
    Reports kb limit query stack b found := by
  cases reports with
  | cons first rest =>
      cases rest
      rw [List.append_nil]
      exact first

end Reporting

section Simulation

variable {kb : KnowledgeBase} {limit : Nat} {query : Predicate} {depth : Nat}
  {stack : Stack}

/-- The interpreter refines a search for goals at a depth: from a goal on top
of a stack it reports what it does from the stack and the results in turn. -/
def Refines (kb : KnowledgeBase) (limit : Nat) (query : Predicate)
    (depth : Nat) (solve : Predicate → Branch → Search (List Branch)) : Prop :=
  ∀ goal b generation run, solve goal b generation = some run →
    ∀ stack found, ReportsAll kb limit query stack run.value found →
      Reports kb limit query ((goal, depth) :: stack) b found

/-- What each branch returns may be reported from a longer stack instead. -/
theorem ReportsAll.of_each {search : Branch → Search (List Branch)}
    {longer : Stack}
    (element : ∀ b generation run, search b generation = some run →
      ∀ found, ReportsAll kb limit query stack run.value found →
        Reports kb limit query longer b found)
    {branches : List Branch} {generation : Nat}
    {run : SearchRun (List Branch)}
    (ended : each search branches generation = some run)
    {found : List Predicate}
    (reports : ReportsAll kb limit query stack run.value found) :
    ReportsAll kb limit query longer branches found := by
  induction branches generalizing generation run found with
  | nil =>
      cases ended
      cases reports
      exact .nil
  | cons b more ih =>
      obtain ⟨first, rest, hfirst, hrest, rfl⟩ := bind_eq_some.mp ended
      obtain ⟨others, last, hothers, hlast, rfl⟩ := bind_eq_some.mp hrest
      cases hlast
      obtain ⟨before, after, left, right, rfl⟩ := reports.split
      exact .cons (element b generation first hfirst before left)
        (ih hothers right)

section Clauses

variable {solve : Predicate → Branch → Search (List Branch)}

theorem conjunction_refined (refines : Refines kb limit query depth solve)
    {goals : List Predicate} {b : Branch} {generation : Nat}
    {run : SearchRun (List Branch)}
    (ended : Branching.conjunction solve goals b generation = some run)
    {found : List Predicate}
    (reports : ReportsAll kb limit query stack run.value found) :
    Reports kb limit query (goals.map (·, depth) ++ stack) b found := by
  induction goals generalizing b generation run found with
  | nil =>
      cases ended
      exact reports.single
  | cons goal rest ih =>
      obtain ⟨first, last, hfirst, hlast, rfl⟩ := bind_eq_some.mp ended
      exact refines goal b generation first hfirst _ _
        (.of_each (fun _ _ _ hrest _ reports => ih hrest reports) hlast reports)

/-- Using a clause, the interpreter reports what it does from the results of
the clause. -/
theorem useClause_refined (refines : Refines kb limit query (depth + 1) solve)
    {goal : Predicate} {b : Branch} {clause : Clause} {start : Nat}
    {run : SearchRun (List Branch)}
    (ended : Branching.useClause solve goal b clause start = some run)
    {found : List Predicate}
    (reports : ReportsAll kb limit query stack run.value found) :
    Eventually fun fuel => ∀ shift s generation,
      b.Appears shift s generation → goal.Known b.drawn shift generation →
        Known stack b.drawn shift generation →
          (useClause (answers kb limit query fuel)
            (goal.relabel (regenerate shift)) depth (image shift stack) s
            clause).Yields generation found := by
  obtain ⟨_, rest, hcount, hrest, rfl⟩ := bind_eq_some.mp ended
  cases unified : b.unify goal clause.head with
  | none =>
      rw [unified] at hrest
      cases hrest
      cases reports
      refine .always fun fuel shift s generation appears known _ => ?_
      refine .freshGeneration_bind ?_
      rw [appears.unify_advance known, unified]
      exact .pure []
  | some u =>
      rw [unified] at hrest
      obtain ⟨inner, hinner, same⟩ := Branching.proceed_eq_some hrest
      change ReportsAll kb limit query stack rest.value found at reports
      rw [← same] at reports
      have body := conjunction_refined refines hinner reports
      have goals : (clause.body.map (·.renamed (b.extend u).drawn)).map
          (·, depth + 1) = bodyAt clause (b.drawn + 1) (depth + 1) := by
        rw [List.map_map]
        rfl
      rw [goals] at body
      refine body.imp fun fuel reported shift s generation appears known old =>
        ?_
      refine .freshGeneration_bind ?_
      rw [appears.unify_advance known, unified]
      have keeps := keeps_advance shift b.drawn generation
      have number := advance_next shift b.drawn generation
      have shown := reported (advance shift b.drawn generation) _ _
        (appears.extend_advance known unified) ?_
      · rw [image_append, image_bodyAt, image_eq old keeps, number] at shown
        exact shown
      · intro entry member
        rcases List.mem_append.mp member with inside | below
        · exact known_bodyAt clause number _ entry inside
        · exact ((old entry below).keeps keeps).mono (Nat.le_succ _)
            (Nat.le_succ _)

/-- Using clauses in turn, the interpreter reports what it does from the
results of the clauses. -/
theorem each_refined (refines : Refines kb limit query (depth + 1) solve)
    {goal : Predicate} {b : Branch} {clauses : List Clause} {start : Nat}
    {run : SearchRun (List Branch)}
    (ended : each (Branching.useClause solve goal b) clauses start = some run)
    {found : List Predicate}
    (reports : ReportsAll kb limit query stack run.value found) :
    Eventually fun fuel => ∀ shift s generation,
      b.Appears shift s generation → goal.Known b.drawn shift generation →
        Known stack b.drawn shift generation →
          (each (useClause (answers kb limit query fuel)
            (goal.relabel (regenerate shift)) depth (image shift stack) s)
            clauses).Yields generation found := by
  induction clauses generalizing start run found with
  | nil =>
      cases ended
      cases reports
      exact .always fun _ _ _ _ _ _ _ => .pure []
  | cons clause rest ih =>
      obtain ⟨first, others, hfirst, hothers, rfl⟩ := bind_eq_some.mp ended
      obtain ⟨more, last, hmore, hlast, rfl⟩ := bind_eq_some.mp hothers
      cases hlast
      obtain ⟨before, after, left, right, rfl⟩ := reports.split
      have reported := (useClause_refined refines hfirst left).and
        (ih hmore right)
      refine reported.imp ?_
      rintro fuel ⟨here, there⟩ shift s generation appears known old
      refine .each_cons (here shift s generation appears known old)
        fun drawn further => ?_
      exact there shift s drawn (appears.mono further)
        (known.mono (Nat.le_refl _) further)
        fun entry member => (old entry member).mono (Nat.le_refl _) further

end Clauses

/-- The interpreter refines the branching search. -/
theorem solve_refined (kb : KnowledgeBase) {settings : SearchSettings}
    (limited : settings.maxDepth ≠ 0) (query : Predicate) (fuel depth : Nat) :
    Refines kb settings.maxDepth.toNat query depth
      (Branching.solve kb settings fuel depth) := by
  induction fuel generalizing depth with
  | zero => exact fun _ _ _ _ ended => nomatch ended
  | succ fuel ih =>
      intro goal b start run ended stack found reports
      rw [Branching.solve] at ended
      have shallow : settings.allows depth ↔
          depth ≤ settings.maxDepth.toNat := by
        simp [SearchSettings.allows, limited]
      split at ended
      · rename_i allowed
        obtain ⟨_, rest, hcount, hrest, rfl⟩ := bind_eq_some.mp ended
        refine .of_succ <| (each_refined (ih (depth + 1)) hrest reports).imp
          fun fuel' reported shift s generation appears known => ?_
        rw [image, List.map_cons, answers, if_pos (shallow.mp allowed)]
        exact reported shift s generation appears
          (known _ List.mem_cons_self)
          fun entry member => known entry (List.mem_cons_of_mem _ member)
      · rename_i forbidden
        obtain ⟨_, rest, hcount, hrest, rfl⟩ := bind_eq_some.mp ended
        cases hrest
        cases reports
        refine .of_succ <| .always
          fun fuel' shift s generation appears known => ?_
        rw [image, List.map_cons, answers,
          if_neg fun below => forbidden (shallow.mpr below)]
        exact .pure []

/-- From the empty stack the interpreter reports the answer to the query. -/
theorem reports_nil (plain : query.Plain) (b : Branch) :
    Reports kb limit query [] b [b.bindings.answer query] := by
  refine .of_succ <| .always fun fuel shift s generation appears _ => ?_
  rw [← appears.answer_eq plain]
  exact .pure _

theorem reportsAll_nil (plain : query.Plain) (branches : List Branch) :
    ReportsAll kb limit query [] branches
      (branches.map (·.bindings.answer query)) := by
  induction branches with
  | nil => exact .nil
  | cons b more ih => exact .cons (reports_nil plain b) ih

end Simulation

end HornLogic.Search.GoalStack

namespace HornLogic.Resolver

open Search

/--
The solutions of a plain query are those of the goal-stack interpreter, in the
same order.  The interpreter ends with them for every supply of generations,
given enough fuel.
-/
theorem resolve_eq_goalStack (r : Resolver)
    (threaded : r.settings.conjunction = .threaded)
    (limited : r.settings.maxDepth ≠ 0) {query : Predicate}
    (plain : query.Plain) (path : Derivation) :
    ∃ solutions after, r.resolve query path = some (solutions, after) ∧
      ∃ least, ∀ fuel, least ≤ fuel → ∀ generation, ∃ run,
        GoalStack.answers r.kb r.settings.maxDepth.toNat query fuel
          [(query, 0)] .empty generation = some run ∧
        run.value = solutions := by
  obtain ⟨run, ended, after, answered⟩ :=
    resolve_ends threaded limited query path
  have related := Branching.solve_mirrors r.kb r.settings r.kb.horizon 0 query
    .start (Equiv.refl Nat) .empty r.generation (Branch.appears_start _ _)
    (plain.known _ _ _)
  rw [plain.relabel_eq] at related
  obtain ⟨run', ended', _, _, paired⟩ := related.forward ended 0
  have same := Branching.map_answer_eq plain paired
  obtain ⟨least, reported⟩ := GoalStack.solve_refined r.kb limited query
    r.kb.horizon 0 query .start 0 run' ended' [] _
    (GoalStack.reportsAll_nil plain run'.value)
  refine ⟨_, after, answered, least, fun fuel enough generation => ?_⟩
  obtain ⟨run'', ended'', _, value⟩ := reported fuel enough (Equiv.refl Nat)
    .empty generation (Branch.appears_start _ _) fun entry member => by
      rw [List.mem_singleton.mp member]
      exact plain.known _ _ _
  rw [GoalStack.image, List.map_singleton, plain.relabel_eq] at ended''
  exact ⟨run'', ended'', value.trans same.symm⟩

/-- The interpreter answers the query for paths as the resolver does. -/
theorem resolve_eq_goalStack_paths :
    ∃ solutions after,
      resolve { kb := Example.paths, settings := { maxDepth := 2 } }
        Example.query [] = some (solutions, after) ∧
      ∃ least, ∀ fuel, least ≤ fuel → ∀ generation, ∃ run,
        GoalStack.answers Example.paths 2 Example.query fuel
          [(Example.query, 0)] .empty generation = some run ∧
        run.value = solutions :=
  resolve_eq_goalStack { kb := Example.paths, settings := { maxDepth := 2 } }
    rfl (by decide) Example.plain_query []

example :
    (GoalStack.answers Example.paths 2 Example.query 8 [(Example.query, 0)]
      .empty 0).map (·.value) =
      some [⟨"path", [.const "a", .const "b"]⟩,
        ⟨"path", [.const "a", .const "c"]⟩] := by
  decide +kernel

end HornLogic.Resolver
