import HornLogic.KnowledgeBase
import HornLogic.Proofs.Layer

/-!
# Plain clauses and queries

A predicate, a clause or a knowledge base is plain when its variables are, as
all variables are that can be written.
-/

namespace HornLogic

/-- The term is no variable of a generation. -/
def Term.Plain : Term → Prop
  | .const _ => True
  | .var v => v.Plain

instance : DecidablePred Term.Plain
  | .const _ => inferInstanceAs (Decidable True)
  | .var v => inferInstanceAs (Decidable v.Plain)

namespace Predicate

def Plain (p : Predicate) : Prop :=
  ∀ arg ∈ p.args, arg.Plain

instance : DecidablePred Plain := fun p =>
  inferInstanceAs (Decidable (∀ arg ∈ p.args, arg.Plain))

theorem Plain.var {p : Predicate} (plain : p.Plain) {v : Variable}
    (member : .var v ∈ p.args) : v.Plain :=
  plain _ member

theorem Plain.ofAge {p : Predicate} (plain : p.Plain) : p.OfAge 0 :=
  fun _ member => (plain.var member).age_eq

theorem Plain.within {p : Predicate} (plain : p.Plain) (generation : Nat) :
    p.Within generation :=
  plain.ofAge.within (Nat.zero_le _)

end Predicate

def Clause.Plain (clause : Clause) : Prop :=
  ∀ p ∈ clause.head :: clause.body, p.Plain

instance : DecidablePred Clause.Plain := fun clause =>
  inferInstanceAs (Decidable (∀ p ∈ clause.head :: clause.body, p.Plain))

def KnowledgeBase.Plain (kb : KnowledgeBase) : Prop :=
  ∀ clause ∈ kb.toList, clause.Plain

instance : DecidablePred KnowledgeBase.Plain := fun kb =>
  inferInstanceAs (Decidable (∀ clause ∈ kb.toList, clause.Plain))

/-! ## A program with a recursive rule -/

namespace Example

/-- The paths of a graph with two edges. -/
def paths : KnowledgeBase :=
  ⟨[.fact ⟨"edge", [.const "a", .const "b"]⟩,
    .fact ⟨"edge", [.const "b", .const "c"]⟩,
    .rule ⟨⟨"path", [.var ⟨"X"⟩, .var ⟨"Y"⟩]⟩,
      [⟨"edge", [.var ⟨"X"⟩, .var ⟨"Y"⟩]⟩]⟩,
    .rule ⟨⟨"path", [.var ⟨"X"⟩, .var ⟨"Z"⟩]⟩,
      [⟨"edge", [.var ⟨"X"⟩, .var ⟨"Y"⟩]⟩,
        ⟨"path", [.var ⟨"Y"⟩, .var ⟨"Z"⟩]⟩]⟩]⟩

def query : Predicate :=
  ⟨"path", [.const "a", .var ⟨"W"⟩]⟩

theorem plain_paths : paths.Plain := by decide

theorem plain_query : query.Plain := by decide

end Example

end HornLogic
