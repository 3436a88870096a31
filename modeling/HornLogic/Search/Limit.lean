/-!
# Search settings

How deep a search may go and how it proves the body of a rule.
-/

namespace HornLogic

/-- How the goals of a rule's body are proved. -/
inductive Conjunction where
  /-- From left to right under shared bindings, with every combination of
  alternatives. -/
  | threaded
  /-- Each goal on its own under the bindings of the head. -/
  | singlePass
deriving DecidableEq, Inhabited

structure SearchSettings where
  /-- The greatest depth of a goal; zero stands for no limit. -/
  maxDepth : UInt64 := 0
  conjunction : Conjunction := .threaded
deriving DecidableEq, Inhabited

namespace SearchSettings

def allows (settings : SearchSettings) (depth : Nat) : Bool :=
  settings.maxDepth == 0 || depth ≤ settings.maxDepth.toNat

variable {settings : SearchSettings} {depth : Nat}

theorem allows_iff (limited : settings.maxDepth ≠ 0) :
    settings.allows depth ↔ depth ≤ settings.maxDepth.toNat := by
  simp [allows, limited]

theorem allows_of_unlimited (unlimited : settings.maxDepth = 0) :
    settings.allows depth := by
  simp [allows, unlimited]

/-- A goal for a query is tried under every limit. -/
theorem allows_zero : settings.allows 0 := by
  simp [allows]

end SearchSettings

end HornLogic
