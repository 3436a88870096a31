import HornLogic.Proofs.Engine.Ingestion
import HornLogic.Proofs.Text.Bytes
import HornLogic.Session

/-!
# Single lines

What a line of a script is does not depend on the white space around it, and a
line feed between two scripts puts at most a blank line between their lines.  A
line of knowledge holds a single clause, so that it is added or leaves the
engine as it is, whatever the ingest policy.
-/

namespace HornLogic

open Text (allBlank trim)

namespace ScriptLine

/-- The knowledge on a line is the line itself, without the white space around
it. -/
theorem toList_of_classify {line text : String}
    (isKnowledge : classify line = .knowledge text) :
    text.toList = trim line.toList ∧ trim line.toList ≠ [] := by
  unfold classify ofTrimmed at isKnowledge
  split at isKnowledge <;> cases isKnowledge
  exact ⟨String.toList_ofList, by assumption⟩

/-- A line of knowledge is one line, and it is not blank. -/
theorem knowledge_of_classify {line text : String}
    (isKnowledge : classify line = .knowledge text)
    (noFeed : '\n' ∉ line.toList) :
    '\n' ∉ text.toList ∧ allBlank text.toList = false := by
  obtain ⟨trimmed, nonempty⟩ := toList_of_classify isKnowledge
  constructor
  · rw [trimmed]
    exact fun member => noFeed (Text.mem_of_mem_trim member)
  · rw [← Bool.not_eq_true, ← Text.trim_eq_nil_iff, trimmed, Text.trim_trim]
    exact nonempty

/-- White space at the end of a line does not count. -/
theorem classify_append {line back : List Char}
    (behind : ∀ c ∈ back, Text.isBlank c = true) :
    classify (String.ofList (line ++ back)) = classify (String.ofList line) := by
  rw [classify, classify, String.toList_ofList, String.toList_ofList,
    Text.trim_append behind]

def ofScript (script : String) : List ScriptLine :=
  (Text.linesOf script).map classify

/-- A line feed between two scripts puts a blank line between them, if the first
one ended with a line feed, and nothing if it did not. -/
theorem ofScript_append (front back : String) : ∃ gap,
    (gap = [] ∨ gap = [.blank]) ∧
      ofScript (front ++ "\n" ++ back) =
        ofScript front ++ (gap ++ ofScript back) := by
  obtain ⟨lines, last, short, long⟩ :=
    Text.cutLines_append_lineFeed '\r' '\n' [] front.toList back.toList
  have whole : (front ++ "\n" ++ back).toList =
      front.toList ++ '\n' :: back.toList := by simp
  simp only [ofScript, Text.linesOf, Text.lines, whole, short, long,
    List.map_append, List.map_cons]
  cases last with
  | nil => exact ⟨[.blank], .inr rfl, by simp [Text.cutLines]; rfl⟩
  | cons symbol before =>
      obtain ⟨dropped, returns, split⟩ :=
        Text.exists_closeLine '\r' (symbol :: before)
      refine ⟨[], .inl rfl, ?_⟩
      rw [Text.cutLines_nil (List.cons_ne_nil _ _), split]
      simp only [List.map_cons, List.map_nil, List.nil_append, List.append_assoc,
        List.singleton_append]
      rw [classify_append fun c member => by rw [returns c member]; decide]

end ScriptLine

/-- A text without line feeds is read as one clause. -/
theorem Clause.readLines_line {text : String} (noFeed : '\n' ∉ text.toList)
    (solid : allBlank text.toList = false) :
    Clause.readLines text = [Statement.readNumbered text.toList 1] := by
  have nonempty : text.toList ≠ [] := by
    intro empty
    rw [empty] at solid
    cases solid
  rw [Clause.readLines, Statement.readLines, Text.lines,
    Text.cutLines_line nonempty noFeed]
  simp [solid]

namespace Engine

theorem add_line_of_ok {text : String} (noFeed : '\n' ∉ text.toList)
    (solid : allBlank text.toList = false) {clause : Clause}
    (isRead : Clause.read text = .ok clause) (engine : Engine) :
    engine.add text = ({ engine with kb := engine.kb.addAll [clause] }, .ok 1) := by
  refine add_of_ok ?_ engine
  rw [Clause.readLines_line noFeed solid, Statement.readNumbered]
  rw [Clause.read] at isRead
  rw [isRead]
  rfl

theorem add_line_of_error {text : String} (noFeed : '\n' ∉ text.toList)
    (solid : allBlank text.toList = false) {rejection : Statement.Rejection}
    (rejected : Clause.read text = .error rejection) (engine : Engine) :
    engine.add text = (engine, .error (.ofRejection (rejection.onLine 1))) := by
  have alone : Clause.readLines text = [.error (rejection.onLine 1)] := by
    rw [Clause.readLines_line noFeed solid, Statement.readNumbered]
    rw [Clause.read] at rejected
    rw [rejected]
  rw [add, alone]
  cases engine.settings.ingest <;>
    simp [Statement.collect, leading, KnowledgeBase.addAll]

end Engine

end HornLogic
