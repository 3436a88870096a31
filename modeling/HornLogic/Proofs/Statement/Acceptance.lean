import HornLogic.Statement.Reading
import HornLogic.Proofs.Text
import HornLogic.Proofs.Statement.Reader
import Mathlib.Data.List.Forall2

/-!
# Accepted statements

A predicate, a query or a clause is read from exactly the texts that stand for
it, whatever white space is around it.  No text stands for two of them, and
nothing is lost by reading a rule before a fact.  A longer text is read line by
line.
-/

namespace HornLogic.Statement

open Text (Trimmed trim trimmed_iff allBlank trim_eq_nil_iff)

/-! ## Whole texts -/

theorem readWhole_predicate_iff {text : List Char} {p : Predicate} :
    readWhole predicate skipPeriod text = .ok p ↔
      Whole Predicate.Written text p :=
  readWhole_eq_ok_iff predicate_reads fun _ _ => trivial

theorem readWhole_clause_iff {text : List Char} {c : Clause} :
    readWhole clause skipPeriod text = .ok c ↔ Whole Clause.Written text c :=
  readWhole_eq_ok_iff clause_reads fun _ ending =>
    ⟨ending.notBefore (by decide), ending.notBefore (by decide)⟩

/-- A condition on the value alone does not depend on where a text ends. -/
theorem whole_and_iff {α : Type} {written : List Char → α → Prop}
    {condition : α → Prop} {text : List Char} {value : α} :
    Whole (fun taken value => written taken value ∧ condition value) text value ↔
      Whole written text value ∧ condition value := by
  constructor
  · rintro ⟨taken, ending, split, ⟨isWritten, holds⟩, ends⟩
    exact ⟨⟨taken, ending, split, isWritten, ends⟩, holds⟩
  · rintro ⟨⟨taken, ending, split, isWritten, ends⟩, holds⟩
    exact ⟨taken, ending, split, ⟨isWritten, holds⟩, ends⟩

theorem readWhole_rule_iff {text : List Char} {c : Clause} :
    readWhole rule skipPeriod text = .ok c ↔
      Whole Clause.Written text c ∧ c.isFact = false :=
  (readWhole_eq_ok_iff rule_reads fun _ ending =>
    ending.notBefore (by decide)).trans whole_and_iff

theorem readWhole_fact_iff {text : List Char} {c : Clause} :
    readWhole fact skipPeriod text = .ok c ↔
      Whole Clause.Written text c ∧ c.isFact = true :=
  (readWhole_eq_ok_iff fact_reads fun _ _ => trivial).trans whole_and_iff

/-! ## Unambiguity -/

theorem Whole.predicate_unique {text : List Char} {p q : Predicate}
    (first : Whole Predicate.Written text p)
    (second : Whole Predicate.Written text q) : p = q := by
  rw [← readWhole_predicate_iff] at first second
  exact Except.ok.inj (first.symm.trans second)

theorem Whole.clause_unique {text : List Char} {c d : Clause}
    (first : Whole Clause.Written text c)
    (second : Whole Clause.Written text d) : c = d := by
  rw [← readWhole_clause_iff] at first second
  exact Except.ok.inj (first.symm.trans second)

/-- A fact is read as if no rule had been tried before, and so is a rule. -/
theorem readWhole_clause_iff_or {text : List Char} {c : Clause} :
    readWhole clause skipPeriod text = .ok c ↔
      readWhole rule skipPeriod text = .ok c ∨
        readWhole fact skipPeriod text = .ok c := by
  rw [readWhole_clause_iff, readWhole_rule_iff, readWhole_fact_iff]
  constructor
  · intro isWhole
    cases kind : c.isFact with
    | false => exact .inl ⟨isWhole, rfl⟩
    | true => exact .inr ⟨isWhole, rfl⟩
  · rintro (⟨isWhole, _⟩ | ⟨isWhole, _⟩) <;> exact isWhole

/-- No text is both a rule and a fact. -/
theorem rule_ne_fact {text : List Char} {c d : Clause}
    (isRule : readWhole rule skipPeriod text = .ok c) :
    readWhole fact skipPeriod text ≠ .ok d := by
  intro isFact
  obtain ⟨asRule, rule⟩ := readWhole_rule_iff.mp isRule
  obtain ⟨asFact, fact⟩ := readWhole_fact_iff.mp isFact
  rw [asRule.clause_unique asFact, fact] at rule
  cases rule

/-! ## Trimmed texts -/

/-- A whole statement with white space around it. -/
def Stated {α : Type} (written : List Char → α → Prop) (text : List Char)
    (value : α) : Prop :=
  ∃ middle, Trimmed text middle ∧ Whole written middle value

theorem stated_iff {α : Type} {written : List Char → α → Prop}
    {text : List Char} {value : α} :
    Stated written text value ↔ Whole written (trim text) value := by
  simp only [Stated, trimmed_iff, exists_eq_left']

theorem readPredicate_iff {text : List Char} {p : Predicate} :
    readPredicate text = .ok p ↔ Stated Predicate.Written text p := by
  rw [stated_iff, ← readWhole_predicate_iff, readPredicate, readTrimmed]
  split
  · rename_i blank
    rw [blank]
    exact ⟨nofun, nofun⟩
  · cases readWhole predicate skipPeriod (trim text) <;> simp

theorem readClause_iff {text : List Char} {c : Clause} :
    readClause text = .ok c ↔ Stated Clause.Written text c := by
  rw [stated_iff, ← readWhole_clause_iff, readClause]
  split
  · rename_i blank
    rw [blank]
    exact ⟨nofun, nofun⟩
  · cases readWhole clause skipPeriod (trim text) <;> simp

theorem unmarked_iff {text bare : List Char} :
    Unmarked text bare ↔ dropQueryMark text = bare := by
  constructor
  · rintro (rest | plain)
    · rfl
    · unfold dropQueryMark
      split
      · exact absurd rfl (plain _)
      · rfl
  · rintro rfl
    unfold dropQueryMark
    split
    · exact .marked _
    · rename_i plain
      exact .plain plain

theorem readQuery_iff {text : List Char} {p : Predicate} :
    readQuery text = .ok p ↔ ∃ middle bare, Trimmed text middle ∧
      Unmarked middle bare ∧ Stated Predicate.Written bare p := by
  simp only [readQuery, readPredicate_iff, trimmed_iff, unmarked_iff,
    exists_and_left, exists_eq_left']

/-! ## Lines -/

theorem allBlank_of_read {text : List Char} {c : Clause}
    (isRead : readClause text = .ok c) : allBlank text = false := by
  rw [← Bool.not_eq_true, ← trim_eq_nil_iff]
  intro blank
  rw [readClause, if_pos blank] at isRead
  cases isRead

theorem collect_cons_iff {ε α : Type} {result : Except ε α}
    {results : List (Except ε α)} {values : List α} :
    collect (result :: results) = .ok values ↔
      ∃ value others, result = .ok value ∧ collect results = .ok others ∧
        values = value :: others := by
  cases result with
  | error e => simp [collect]
  | ok value =>
      rw [collect]
      cases collect results <;> simp [Except.map, eq_comm]

theorem readNumbered_iff {line : List Char} {number : Nat} {c : Clause} :
    readNumbered line number = .ok c ↔ readClause line = .ok c := by
  rw [readNumbered]
  cases readClause line <;> simp

/-- Lines are read one by one, whatever their numbers. -/
theorem collect_readNumbered_iff {lines : List (List Char)} {number : Nat}
    {clauses : List Clause} :
    collect ((lines.zipIdx number).filterMap fun (line, number) =>
      if allBlank line then none else some (readNumbered line number)) =
        .ok clauses ↔
      List.Forall₂ (fun line c => readClause line = .ok c)
        (lines.filter (!allBlank ·)) clauses := by
  induction lines generalizing number clauses with
  | nil =>
      rw [List.filter_nil, List.forall₂_nil_left_iff, @eq_comm _ clauses]
      exact ⟨Except.ok.inj, congrArg _⟩
  | cons line lines ih =>
      rw [List.zipIdx_cons, List.filterMap_cons]
      cases blank : allBlank line with
      | true =>
          simp only [blank, if_true, List.filter_cons, Bool.not_true,
            Bool.false_eq_true, if_false]
          exact ih
      | false =>
          simp only [blank, Bool.false_eq_true, if_false, List.filter_cons,
            Bool.not_false, if_true]
          rw [collect_cons_iff, List.forall₂_cons_left_iff]
          simp only [readNumbered_iff, ih]

/-- The clauses of a text are those of its lines, without the blank ones. -/
theorem readKnowledge_iff {text : List Char} {clauses : List Clause} :
    readKnowledge text = .ok clauses ↔
      List.Forall₂ (fun line c => readClause line = .ok c)
        ((Text.lines text).filter (!allBlank ·)) clauses :=
  collect_readNumbered_iff

/-! ## Acceptance -/

/--
The texts of the grammar are exactly the ones that are read.  A text has at
most one reading, and taking the rule before the fact changes none.
-/
theorem read_iff_written :
    (∀ text p, Predicate.read text = .ok p ↔
      Stated Predicate.Written text.toList p) ∧
    (∀ text p, Predicate.readQuery text = .ok p ↔
      ∃ middle bare, Trimmed text.toList middle ∧ Unmarked middle bare ∧
        Stated Predicate.Written bare p) ∧
    (∀ text c, Clause.read text = .ok c ↔
      Stated Clause.Written text.toList c) ∧
    (∀ text p q, Whole Predicate.Written text p →
      Whole Predicate.Written text q → p = q) ∧
    (∀ text c d, Whole Clause.Written text c →
      Whole Clause.Written text d → c = d) ∧
    (∀ text c, readWhole clause skipPeriod text = .ok c ↔
      readWhole rule skipPeriod text = .ok c ∨
        readWhole fact skipPeriod text = .ok c) ∧
    (∀ text c d, readWhole rule skipPeriod text = .ok c →
      readWhole fact skipPeriod text ≠ .ok d) :=
  ⟨fun _ _ => readPredicate_iff, fun _ _ => readQuery_iff,
    fun _ _ => readClause_iff, fun _ _ _ => Whole.predicate_unique,
    fun _ _ _ => Whole.clause_unique, fun _ _ => readWhole_clause_iff_or,
    fun _ _ _ => rule_ne_fact⟩

example : Clause.read " p ( X ):-q(X ,a) . " =
    .ok (.rule ⟨⟨"p", [.var ⟨"X"⟩]⟩, [⟨"q", [.var ⟨"X"⟩, .const "a"]⟩]⟩) := by
  cbv

end HornLogic.Statement
