/-!
# Search statistics

What a search did, in numbers.  Statistics of consecutive parts of a search
add up; only the deepest level reached is a maximum.
-/

namespace HornLogic

structure Stats where
  /-- Goals that were tried. -/
  goals : Nat := 0
  /-- Clause heads that were compared with a goal. -/
  attempted : Nat := 0
  /-- Clause heads that could be unified with a goal. -/
  succeeded : Nat := 0
  /-- Derivations that were recorded. -/
  derivations : Nat := 0
  /-- Solutions of the last query. -/
  solutions : Nat := 0
  /-- Goals that were given up because they lay too deep. -/
  cutoffs : Nat := 0
  /-- The greatest depth of a goal that was tried. -/
  deepest : Nat := 0
deriving DecidableEq, Inhabited

namespace Stats

def add (s t : Stats) : Stats where
  goals := s.goals + t.goals
  attempted := s.attempted + t.attempted
  succeeded := s.succeeded + t.succeeded
  derivations := s.derivations + t.derivations
  solutions := s.solutions + t.solutions
  cutoffs := s.cutoffs + t.cutoffs
  deepest := max s.deepest t.deepest

instance : Add Stats := ⟨add⟩

end Stats

end HornLogic
