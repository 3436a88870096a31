import HornLogic.Proofs.Branch
import HornLogic.Proofs.Search.Call
import HornLogic.Proofs.Search.Related

/-!
# Branching search

The threaded search on branches: instead of drawing generations, it renames
each clause into the next generation of the branch.  Both searches do and log
the same, and their results are the same up to the numbers of generations;
the answers to a plain query are equal.
-/

namespace HornLogic.Search.Branching

open Variable (regenerate Keeps keeps_advance)

def conjunction (solve : Predicate → Branch → Search (List Branch)) :
    List Predicate → Branch → Search (List Branch)
  | [], b => pure [b]
  | goal :: rest, b => solve goal b >>= each (conjunction solve rest)

def proceed (solve : Predicate → Branch → Search (List Branch)) (b : Branch) :
    Clause → Search (List Branch)
  | .fact fact => record [fact] >>= fun _ => pure [b]
  | .rule rule =>
      under rule.head (conjunction solve (rule.renamed b.drawn).body b) >>=
        fun proofs =>
          Threaded.recordEach rule.head (proofs.map (·.bindings)) >>=
            fun _ => pure proofs

def useClause (solve : Predicate → Branch → Search (List Branch))
    (goal : Predicate) (b : Branch) (clause : Clause) :
    Search (List Branch) :=
  count { attempted := 1,
          succeeded := if (b.unify goal clause.head).isSome then 1 else 0 } >>=
    fun _ =>
      match b.unify goal clause.head with
      | none => pure []
      | some u => proceed solve (b.extend u) clause

/-- Prove one goal at a given depth by every clause of its name. -/
def solve (kb : KnowledgeBase) (settings : SearchSettings) :
    Nat → Nat → Predicate → Branch → Search (List Branch)
  | 0, _, _, _ => endless
  | fuel + 1, depth, goal, b =>
      if settings.allows depth then
        count { goals := 1, deepest := depth } >>= fun _ =>
          each (useClause (solve kb settings fuel (depth + 1)) goal b)
            (kb.named goal.name)
      else
        count { cutoffs := 1 } >>= fun _ => pure []

/-- What a clause proves are the proofs of its body. -/
theorem proceed_eq_some
    {solve : Predicate → Branch → Search (List Branch)} {b : Branch}
    {clause : Clause} {generation : Nat} {run : SearchRun (List Branch)}
    (ended : proceed solve b clause generation = some run) :
    ∃ inner, conjunction solve (clause.body.map (·.renamed b.drawn)) b
        generation = some inner ∧ inner.value = run.value := by
  cases clause with
  | fact fact =>
      obtain ⟨_, last, hrecord, hlast, rfl⟩ := bind_eq_some.mp ended
      cases hrecord
      cases hlast
      exact ⟨_, rfl, rfl⟩
  | rule rule =>
      obtain ⟨proofs, rest, hproofs, hrest, rfl⟩ := bind_eq_some.mp ended
      obtain ⟨_, last, _, hlast, rfl⟩ := bind_eq_some.mp hrest
      cases hlast
      rw [under, Option.map_eq_some_iff] at hproofs
      obtain ⟨inner, hinner, rfl⟩ := hproofs
      exact ⟨inner, hinner, rfl⟩

/-! ## The threaded search in step -/

/-- A result of the threaded search and the branch it belongs to, under
numbers that keep what was known at the start. -/
def Follows (b : Branch) (shift : Equiv.Perm Nat) (generation last : Nat)
    (s : Substitution) (b' : Branch) : Prop :=
  ∃ shift', b'.Appears shift' s last ∧
    Keeps b.drawn generation shift shift' ∧ b.drawn ≤ b'.drawn

/-- Following on from a branch is following from where it started. -/
private theorem Follows.trans {b b₁ b₂ : Branch}
    {shift shift₁ : Equiv.Perm Nat} {generation drawn last : Nat}
    {s : Substitution} (keeps : Keeps b.drawn generation shift shift₁)
    (grown : b.drawn ≤ b₁.drawn) (after : generation ≤ drawn)
    (follows : Follows b₁ shift₁ drawn last s b₂) :
    Follows b shift generation last s b₂ := by
  obtain ⟨shift₂, appears, keeps₂, grown₂⟩ := follows
  exact ⟨shift₂, appears, keeps.trans keeps₂ grown after,
    Nat.le_trans grown grown₂⟩

private theorem follows_lasting (b : Branch) (shift : Equiv.Perm Nat)
    (generation : Nat) (s : Substitution) (b' : Branch) (drawn later : Nat)
    (after : drawn ≤ later) (follows : Follows b shift generation drawn s b') :
    Follows b shift generation later s b' := by
  obtain ⟨shift', appears, rest⟩ := follows
  exact ⟨shift', appears.mono after, rest⟩

/-- Results that follow branches give the same answers to a plain query. -/
theorem map_answer_eq {query : Predicate} (plain : query.Plain) {b : Branch}
    {shift : Equiv.Perm Nat} {generation last : Nat}
    {found : List Substitution} {branches : List Branch}
    (paired : List.Forall₂ (Follows b shift generation last) found branches) :
    found.map (·.answer query) = branches.map (·.bindings.answer query) := by
  induction paired with
  | nil => rfl
  | cons follows _ ih =>
      obtain ⟨shift', appears, _⟩ := follows
      rw [List.map_cons, List.map_cons, appears.answer_eq plain, ih]

/-- Two searches for goals go on in step: the same is logged, and results
follow their branches. -/
def Mirrors (solve : Predicate → Substitution → Search (List Substitution))
    (solve' : Predicate → Branch → Search (List Branch)) : Prop :=
  ∀ goal b shift s generation, b.Appears shift s generation →
    goal.Known b.drawn shift generation →
      Related Eq (fun last => List.Forall₂ (Follows b shift generation last))
        (solve (goal.relabel (regenerate shift)) s) generation (solve' goal b)

/-- Recording a derivation for each of as many proofs logs the same. -/
private theorem recordEach_congr (head : Predicate)
    {proofs others : List Substitution}
    (alike : proofs.length = others.length) :
    Threaded.recordEach head proofs = Threaded.recordEach head others := by
  induction proofs generalizing others with
  | nil =>
      rw [List.length_nil, eq_comm, List.length_eq_zero_iff] at alike
      rw [alike]
  | cons proof rest ih =>
      cases others with
      | nil => cases alike
      | cons other more =>
          rw [Threaded.recordEach, Threaded.recordEach,
            ih (Nat.succ.inj alike)]

/-- Derivations are recorded in step. -/
private theorem related_recordEach {values : Nat → List Substitution →
      List Branch → Prop} {generation : Nat} (head : Predicate)
    {proofs : List Substitution} {branches : List Branch}
    (alike : proofs.length = branches.length)
    (holds : values generation proofs branches) :
    Related Eq values
      (Threaded.recordEach head proofs >>= fun _ => pure proofs) generation
      (Threaded.recordEach head (branches.map (·.bindings)) >>=
        fun _ => pure branches) := by
  have lengths : proofs.length = (branches.map (·.bindings)).length := by
    rw [alike, List.length_map]
  rw [← recordEach_congr head lengths]
  suffices recording : ∀ recorded : List Substitution, Related Eq values
      (Threaded.recordEach head recorded >>= fun _ => pure proofs) generation
      (Threaded.recordEach head recorded >>= fun _ => pure branches) from
    recording proofs
  intro recorded
  induction recorded with
  | nil => exact .pure logCongruence_eq holds
  | cons proof rest ih =>
      rw [Threaded.recordEach, bind_assoc, bind_assoc]
      exact .record_bind logCongruence_eq _ ih

private theorem attempt_related {b : Branch} {shift : Equiv.Perm Nat}
    {generation : Nat} {goal goal' head head' : Predicate}
    (step : goal'.unify head' =
      (b.unify goal head).map (·.relabel (regenerate shift)))
    {values : Nat → List Substitution → List Branch → Prop}
    {left : Substitution → Search (List Substitution)}
    {right : Substitution → Search (List Branch)}
    (rejected : values generation [] [])
    (used : ∀ u, b.unify goal head = some u →
      Related Eq values (left (u.relabel (regenerate shift))) generation
        (right u)) :
    Related Eq values
      (attempt goal' head' >>= fun unifier =>
        match unifier with
        | none => pure []
        | some u => left u)
      generation
      (count { attempted := 1,
               succeeded := if (b.unify goal head).isSome then 1 else 0 } >>=
        fun _ =>
          match b.unify goal head with
          | none => pure []
          | some u => right u) := by
  rw [attempt_bind, step]
  cases unified : b.unify goal head with
  | none => exact .count_bind logCongruence_eq _ (.pure logCongruence_eq rejected)
  | some u => exact .count_bind logCongruence_eq _ (used u unified)

section Clauses

variable {solve : Predicate → Substitution → Search (List Substitution)}
  {solve' : Predicate → Branch → Search (List Branch)}

private theorem fact_related {goal goal' fact head : Predicate} {b : Branch}
    {shift shift₁ : Equiv.Perm Nat} {s : Substitution}
    {generation drawn : Nat}
    (step : goal'.unify head =
      (b.unify goal fact).map (·.relabel (regenerate shift₁)))
    (extended : ∀ u, b.unify goal fact = some u →
      (b.extend u).Appears shift₁ (s.merged (u.relabel (regenerate shift₁)))
        drawn)
    (keeps : Keeps b.drawn generation shift shift₁) :
    Related Eq (fun last => List.Forall₂ (Follows b shift generation last))
      (attempt goal' head >>= fun unifier =>
        match unifier with
        | none => pure []
        | some u => record [fact] >>= fun _ => pure [s.merged u])
      drawn (useClause solve' goal b (.fact fact)) := by
  refine attempt_related step .nil fun u unified => ?_
  exact .record_bind logCongruence_eq _ <| .pure logCongruence_eq <|
    .cons ⟨shift₁, extended u unified, keeps, Nat.le_succ _⟩ .nil

variable (mirrors : Mirrors solve solve')
include mirrors

theorem conjunction_related {goals : List Predicate} {b : Branch}
    {shift : Equiv.Perm Nat} {s : Substitution} {generation : Nat}
    (appears : b.Appears shift s generation)
    (known : ∀ goal ∈ goals, goal.Known b.drawn shift generation) :
    Related Eq (fun last => List.Forall₂ (Follows b shift generation last))
      (Threaded.conjunction solve (goals.map (·.relabel (regenerate shift))) s)
      generation (conjunction solve' goals b) := by
  induction goals generalizing b shift s generation with
  | nil =>
      refine .pure logCongruence_eq (.cons ?_ .nil)
      exact ⟨shift, appears, .refl _ _ _, Nat.le_refl _⟩
  | cons goal rest ih =>
      refine .bind logCongruence_eq
        (mirrors goal b shift s generation appears
          (known goal List.mem_cons_self)) ?_
      intro drawn extended extended' after paired
      refine .each logCongruence_eq (follows_lasting b shift generation)
        (paired.imp ?_)
      rintro s₁ b₁ ⟨shift₁, appears₁, keeps, grown⟩ later beyond
      have images : rest.map (·.relabel (regenerate shift)) =
          rest.map (·.relabel (regenerate shift₁)) := by
        apply List.map_congr_left
        intro goal inside
        exact ((known goal (List.mem_cons_of_mem _ inside)).relabel_eq
          keeps).symm
      rw [images]
      have knownRest : ∀ goal ∈ rest, goal.Known b₁.drawn shift₁ later :=
        fun goal inside =>
          ((known goal (List.mem_cons_of_mem _ inside)).keeps keeps).mono grown
            (Nat.le_trans after beyond)
      refine (ih (appears₁.mono beyond) knownRest).weaken ?_
      intro last found found' _ others
      exact others.imp fun _ _ follows =>
        .trans keeps grown (Nat.le_trans after beyond) follows

/-- The body of a rule is proved in step. -/
private theorem proceed_related {b b₁ : Branch}
    {shift shift₁ : Equiv.Perm Nat} {s : Substitution}
    {generation drawn : Nat} {rule : Rule}
    (appears : b₁.Appears shift₁ s drawn) (number : shift₁ b₁.drawn = drawn)
    (keeps : Keeps b.drawn generation shift shift₁)
    (grown : b.drawn ≤ b₁.drawn) (after : generation ≤ drawn) :
    Related Eq (fun last => List.Forall₂ (Follows b shift generation last))
      (under rule.head (Threaded.conjunction solve (rule.renamed drawn).body s)
        >>= fun proofs => Threaded.recordEach rule.head proofs >>=
          fun _ => pure proofs)
      drawn (proceed solve' b₁ (.rule rule)) := by
  have images : (rule.renamed drawn).body =
      (rule.renamed b₁.drawn).body.map (·.relabel (regenerate shift₁)) := by
    simp [Rule.renamed, number]
  have known : ∀ goal ∈ (rule.renamed b₁.drawn).body,
      goal.Known b₁.drawn shift₁ drawn := by
    intro goal member
    obtain ⟨written, _, rfl⟩ := List.mem_map.mp member
    exact written.known_renamed number
  rw [images]
  refine .bind logCongruence_eq (.under logCongruence_eq rule.head
    (conjunction_related mirrors appears known)) ?_
  intro last proofs branches _ paired
  have follows := paired.imp fun _ _ each =>
    Follows.trans keeps grown after each
  exact related_recordEach rule.head paired.length_eq follows

theorem useClause_related {goal : Predicate} {b : Branch}
    {shift : Equiv.Perm Nat} {s : Substitution} {generation : Nat}
    (appears : b.Appears shift s generation)
    (known : goal.Known b.drawn shift generation) (clause : Clause) :
    Related Eq (fun last => List.Forall₂ (Follows b shift generation last))
      (Threaded.useClause solve
        (s.resolve (goal.relabel (regenerate shift))) s clause)
      generation (useClause solve' goal b clause) := by
  have keeps := keeps_advance shift b.drawn generation
  cases clause with
  | fact fact =>
      rw [Threaded.useClause, Threaded.useFact, Threaded.freshFact]
      split
      · rename_i ground
        -- No generation is drawn, and the branch renames to no effect.
        have still : (fact.renamed (b.drawn + 1)).relabel (regenerate shift) =
            fact := by
          rw [Predicate.renamed_of_isGround ground]
          exact Predicate.relabel_eq_self fun v member =>
            absurd member (Predicate.not_mem_of_isGround ground v)
        have step := appears.unify_eq goal fact
        rw [still] at step
        rw [pure_bind]
        refine fact_related step (fun u unified => ?_) (.refl _ _ _)
        refine appears.extend known unified ?_
        rw [still]
        exact (Predicate.ofAge_of_isGround ground 0).within (Nat.zero_le _)
      · rw [bind_assoc]
        refine .freshGeneration_bind ?_
        rw [pure_bind]
        exact fact_related (appears.unify_advance known fact)
          (fun u unified => appears.extend_advance known unified) keeps
  | rule rule =>
      rw [Threaded.useClause, Threaded.useRule]
      refine .freshGeneration_bind ?_
      refine attempt_related (appears.unify_advance known rule.head) .nil
        fun u unified => ?_
      exact proceed_related mirrors (appears.extend_advance known unified)
        (Variable.advance_next ..) keeps (Nat.le_succ _) (Nat.le_succ _)

end Clauses

/-- The threaded search for a goal goes on in step with the branching one. -/
theorem solve_mirrors (kb : KnowledgeBase) (settings : SearchSettings)
    (fuel depth : Nat) :
    Mirrors (Threaded.solve kb settings fuel depth)
      (solve kb settings fuel depth) := by
  induction fuel generalizing depth with
  | zero => exact fun _ _ _ _ _ _ _ => .endless
  | succ fuel ih =>
      intro goal b shift s generation appears known
      rw [Threaded.solve_succ, solve]
      split
      · refine .count_bind logCongruence_eq _ <| .each logCongruence_eq
          (follows_lasting b shift generation)
          (List.forall₂_same.mpr fun clause _ drawn after => ?_)
        refine (useClause_related (ih (depth + 1)) (appears.mono after)
          (known.mono (Nat.le_refl _) after) clause).weaken ?_
        intro last found found' _ paired
        exact paired.imp fun _ _ follows =>
          .trans (.refl _ _ _) (Nat.le_refl _) after follows
      · exact .count_bind logCongruence_eq _ (.pure logCongruence_eq .nil)

end HornLogic.Search.Branching
