import HornLogic.Clause

/-!
# Knowledge bases

A knowledge base is a list of clauses.  Clauses are only ever added at the
end, and their order is the order in which a search tries them.
-/

namespace HornLogic

/-- Clauses in the order in which they were added. -/
structure KnowledgeBase where
  toList : List Clause
deriving DecidableEq, Inhabited

namespace KnowledgeBase

def empty : KnowledgeBase :=
  ⟨[]⟩

def add (kb : KnowledgeBase) (clause : Clause) : KnowledgeBase :=
  ⟨kb.toList ++ [clause]⟩

def addAll (kb : KnowledgeBase) (clauses : List Clause) : KnowledgeBase :=
  ⟨kb.toList ++ clauses⟩

def size (kb : KnowledgeBase) : Nat :=
  kb.toList.length

def isEmpty (kb : KnowledgeBase) : Bool :=
  kb.toList.isEmpty

def factCount (kb : KnowledgeBase) : Nat :=
  kb.toList.countP Clause.isFact

def ruleCount (kb : KnowledgeBase) : Nat :=
  kb.toList.countP fun clause => !clause.isFact

/-- The clauses whose head has a given name, in order. -/
def named (kb : KnowledgeBase) (name : String) : List Clause :=
  kb.toList.filter fun clause => clause.name = name

/-- A listing of the clauses for inspection, one indented line each. -/
def listing (kb : KnowledgeBase) : String :=
  "KnowledgeBase \x7b\n" ++
    String.join (kb.toList.map fun clause => "  " ++ clause.text ++ "\n") ++ "\x7d"

/-- The clauses tried for a goal are those of the knowledge base with its name. -/
theorem mem_named {kb : KnowledgeBase} {name : String} {clause : Clause} :
    clause ∈ kb.named name ↔ clause ∈ kb.toList ∧ clause.name = name := by
  simp [named]

@[simp] theorem toList_empty : empty.toList = [] := rfl

@[simp] theorem toList_add (kb : KnowledgeBase) (clause : Clause) :
    (kb.add clause).toList = kb.toList ++ [clause] := rfl

@[simp] theorem toList_addAll (kb : KnowledgeBase) (clauses : List Clause) :
    (kb.addAll clauses).toList = kb.toList ++ clauses := rfl

end KnowledgeBase

end HornLogic
