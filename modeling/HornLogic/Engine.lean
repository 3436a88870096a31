import HornLogic.Fault
import HornLogic.Search.Resolver
import HornLogic.Statement.Reading

/-!
# Engines

An engine owns a knowledge base.  Knowledge is added from a text with one
clause on each line, and queries are answered against the clauses present.
The ingest policy decides what a text with a bad line leaves behind: nothing,
or the clauses in front of the bad line.
-/

namespace HornLogic

/-- What is kept of a text that is rejected at one of its lines. -/
inductive IngestPolicy where
  /-- Nothing is kept. -/
  | allOrNothing
  /-- The clauses in front of the bad line are kept. -/
  | keepLeading
deriving DecidableEq, Inhabited

structure EngineSettings where
  search : SearchSettings := {}
  ingest : IngestPolicy := .allOrNothing
deriving DecidableEq, Inhabited

structure Engine where
  kb : KnowledgeBase := .empty
  settings : EngineSettings := {}
deriving DecidableEq, Inhabited

namespace Engine

open Statement (Rejection)

/-- The successes in front of the first failure. -/
def leading {ε α : Type} : List (Except ε α) → List α
  | .ok a :: rest => a :: leading rest
  | _ => []

/-- Add the clauses of a text, and count them; a bad line is a fault. -/
def add (engine : Engine) (text : String) : Engine × Except Fault Nat :=
  let results := Clause.readLines text
  match Statement.collect results with
  | .ok clauses =>
      ({ engine with kb := engine.kb.addAll clauses }, .ok clauses.length)
  | .error rejection =>
      let kept := match engine.settings.ingest with
        | .allOrNothing => []
        | .keepLeading => leading results
      ({ engine with kb := engine.kb.addAll kept },
        .error (.ofRejection rejection))

def blankQuery : Fault :=
  { code := .emptyStatement, message := "query cannot be empty" : Fault}.foundAt
    "<location>"

def readQuery (text : String) : Except Fault Predicate :=
  if Text.allBlank text.toList then
    .error blankQuery
  else
    match Predicate.readQuery text with
    | .ok query => .ok query
    | .error rejection => .error (.ofRejection rejection)

def resolve (engine : Engine) (query : Predicate) : Option Resolution :=
  Resolver.answer { kb := engine.kb, settings := engine.settings.search } query

/--
Read a query and resolve it.  The result is none if the search has no end;
a query without solutions is no fault.
-/
def ask (engine : Engine) (text : String) : Option (Except Fault Resolution) :=
  match readQuery text with
  | .error fault => some (.error fault)
  | .ok query => (engine.resolve query).map .ok

def clear (engine : Engine) : Engine :=
  { engine with kb := .empty }

end Engine

end HornLogic
