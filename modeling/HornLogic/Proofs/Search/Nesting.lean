import HornLogic.Search.Resolver

/-!
# Nested goals

The goals of a body are nested in the goal that their clause was used for.  A
search has an end when the number of goals nested in one another has a bound
that falls from a goal to the goals of its clauses.  A depth limit is such a
bound.  So is a ranking of names in which every goal of a body ranks below the
head: then no clause is used twice on the way down, so that a bound need not
depend on how high the ranks are.  Neither bound reaches the horizon of a search.
-/

namespace HornLogic

namespace KnowledgeBase

/-- A bound, by depth and name, for the goals that may be nested in a goal.  It
falls from a head to its body where goals are tried. -/
def Nests (kb : KnowledgeBase) (settings : SearchSettings)
    (bound : Nat → String → Nat) : Prop :=
  ∀ depth, settings.allows depth → ∀ clause ∈ kb.toList,
    ∀ goal ∈ clause.body, bound (depth + 1) goal.name < bound depth clause.name

/-- A depth limit bounds nested goals by the depth that is left. -/
theorem nests_of_limit (kb : KnowledgeBase) {settings : SearchSettings}
    (limited : settings.maxDepth ≠ 0) :
    kb.Nests settings fun depth _ => settings.maxDepth.toNat + 1 - depth := by
  intro depth allowed clause _ goal _
  have shallow := (SearchSettings.allows_iff limited).mp allowed
  show settings.maxDepth.toNat + 1 - (depth + 1) <
    settings.maxDepth.toNat + 1 - depth
  omega

theorem limit_lt_horizon (kb : KnowledgeBase) (settings : SearchSettings)
    (depth : Nat) : settings.maxDepth.toNat + 1 - depth < kb.horizon := by
  have word := settings.maxDepth.toNat_lt
  simp only [horizon, UInt64.size]
  omega

/-- Every goal of a body ranks below the head. -/
def Ranked (kb : KnowledgeBase) (rank : String → Nat) : Prop :=
  ∀ clause ∈ kb.toList, ∀ goal ∈ clause.body, rank goal.name < rank clause.name

instance (kb : KnowledgeBase) : DecidablePred kb.Ranked := fun rank =>
  inferInstanceAs (Decidable (∀ clause ∈ kb.toList, ∀ goal ∈ clause.body,
    rank goal.name < rank clause.name))

def clausesUpTo (kb : KnowledgeBase) (rank : String → Nat) (name : String) : Nat :=
  kb.toList.countP fun clause => rank clause.name ≤ rank name

theorem clausesUpTo_lt_horizon (kb : KnowledgeBase) (rank : String → Nat)
    (name : String) : kb.clausesUpTo rank name < kb.horizon := by
  have counted : kb.clausesUpTo rank name ≤ kb.size := List.countP_le_length
  rw [horizon]
  omega

/-- A clause counts for its own name, but not for names that rank below it. -/
theorem clausesUpTo_lt {kb : KnowledgeBase} {rank : String → Nat}
    {clause : Clause} (member : clause ∈ kb.toList) {name : String}
    (below : rank name < rank clause.name) :
    kb.clausesUpTo rank name < kb.clausesUpTo rank clause.name := by
  obtain ⟨before, after, split⟩ := List.append_of_mem member
  have fewer : ∀ clauses : List Clause,
      clauses.countP (fun c => rank c.name ≤ rank name) ≤
        clauses.countP fun c => rank c.name ≤ rank clause.name := by
    intro clauses
    refine List.countP_mono_left fun c _ upTo => ?_
    simp only [decide_eq_true_eq] at upTo ⊢
    omega
  have here : ¬ rank clause.name ≤ rank name := Nat.not_le_of_lt below
  have front := fewer before
  have back := fewer after
  simp only [clausesUpTo, split, List.countP_append, List.countP_cons, here,
    Nat.le_refl, decide_true, decide_false]
  simp only [if_true, Bool.false_eq_true, if_false]
  omega

/-- A ranking bounds nested goals by the clauses up to a name, at all depths. -/
theorem Ranked.nests {kb : KnowledgeBase} {rank : String → Nat}
    (ranked : kb.Ranked rank) (settings : SearchSettings) :
    kb.Nests settings fun _ => kb.clausesUpTo rank :=
  fun _ _ clause member goal inside =>
    clausesUpTo_lt member (ranked clause member goal inside)

end KnowledgeBase

end HornLogic
