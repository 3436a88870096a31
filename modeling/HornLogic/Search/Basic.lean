import HornLogic.Search.Derivation
import HornLogic.Search.Limit
import HornLogic.Search.Stats
import HornLogic.Unify

/-!
# Search steps

A search is a computation that may have no end, that draws generation numbers
for renaming clauses apart, and that keeps a log of derivations and
statistics.  The log is only ever written: a step cannot see what was logged
before it, and derivations are logged relative to the goal at hand and put
`under` the clause that asked for it.
-/

namespace HornLogic

structure SearchLog where
  derivations : List Derivation := []
  stats : Stats := {}
deriving DecidableEq, Inhabited

namespace SearchLog

def append (first second : SearchLog) : SearchLog :=
  ⟨first.derivations ++ second.derivations, first.stats + second.stats⟩

instance : Append SearchLog := ⟨append⟩

/-- Put the derivations of a log under a common path. -/
def under (path : Derivation) (log : SearchLog) : SearchLog :=
  { log with derivations := log.derivations.map (path ++ ·) }

end SearchLog

structure SearchRun (α : Type) where
  value : α
  log : SearchLog
  /-- The generation drawn last. -/
  generation : Nat

/--
A search step: from the generation drawn last to an outcome, or to none if
the search has no end.
-/
def Search (α : Type) : Type :=
  Nat → Option (SearchRun α)

namespace Search

protected def pure {α : Type} (value : α) : Search α := fun generation =>
  some ⟨value, {}, generation⟩

/-- Search on with the value of a step, appending to its log. -/
protected def bind {α β : Type} (step : Search α) (next : α → Search β) : Search β :=
  fun generation =>
    match step generation with
    | none => none
    | some first =>
        match next first.value first.generation with
        | none => none
        | some second => some { second with log := first.log ++ second.log }

instance : Monad Search where
  pure := Search.pure
  bind := Search.bind

def endless {α : Type} : Search α := fun _ => none

def count (stats : Stats) : Search Unit := fun generation =>
  some ⟨(), ⟨[], stats⟩, generation⟩

def record (derivation : Derivation) : Search Unit := fun generation =>
  some ⟨(), ⟨[derivation], { derivations := 1 }⟩, generation⟩

def freshGeneration : Search Nat := fun generation =>
  some ⟨generation + 1, {}, generation + 1⟩

/-- Search for the sake of a clause: what is recorded goes under its head. -/
def under {α : Type} (head : Predicate) (search : Search α) : Search α :=
  fun generation =>
    (search generation).map fun run => { run with log := run.log.under [head] }

/-- Collect the results of a search for each element of a list, in order. -/
def each {α β : Type} (search : α → Search (List β)) : List α → Search (List β)
  | [] => pure []
  | a :: rest => do
      let found ← search a
      let more ← each search rest
      pure (found ++ more)

/-- Note whether a goal at a given depth is tried or given up. -/
def enter (settings : SearchSettings) (depth : Nat) : Search Bool := do
  if settings.allows depth then
    count { goals := 1, deepest := depth }
    pure true
  else
    count { cutoffs := 1 }
    pure false

def attempt (goal head : Predicate) : Search (Option Substitution) := do
  let unifier := goal.unify head
  count { attempted := 1, succeeded := if unifier.isSome then 1 else 0 }
  pure unifier

end Search

end HornLogic
