import HornLogic.Proofs.Statement.WellFormed
import Mathlib.Data.List.Forall2

/-!
# Printed clauses

A clause is read back from its text if it is well-formed, alone or among the
lines of a longer text.  The items of its lists are written with a blank
behind each comma, and the period at its end is the one that may end a
statement.
-/

namespace HornLogic

open Statement (Spaces WordChar Word WrittenName WrittenItems WrittenArguments
  Whole)

/-! ## What is well-formed is written by its text -/

namespace Statement

theorem spaces_blank : Spaces [' '] := by
  simp [Spaces]

theorem Word.written {name : String} (isWord : Word name.toList)
    {gap : List Char} (spaces : Spaces gap) :
    WrittenName (gap ++ name.toList) name := by
  have named := WrittenName.mk spaces isWord
  rwa [String.ofList_toList] at named

/-- Items are written with a comma and a blank between them. -/
theorem writtenItems_intercalate {α : Type} {written : List Char → α → Prop}
    {form : α → List Char} {first : α} {others : List α}
    (each : ∀ value ∈ first :: others, ∀ gap, Spaces gap →
      written (gap ++ form value) value)
    {gap : List Char} (spaces : Spaces gap) :
    WrittenItems written
      (gap ++ [',', ' '].intercalate ((first :: others).map form))
      (first :: others) := by
  induction others generalizing first gap with
  | nil =>
      have item := each first List.mem_cons_self gap spaces
      simpa using WrittenItems.mk item .nil
  | cons second others ih =>
      have item := each first List.mem_cons_self gap spaces
      have later := ih (fun value member =>
        each value (List.mem_cons_of_mem _ member)) spaces_blank
      -- The blank behind the comma belongs to the next item.
      generalize split : [' '] ++ [',', ' '].intercalate
        ((second :: others).map form) = behind at later
      obtain ⟨item', more⟩ := later
      have whole := WrittenItems.mk item (.cons spaces_nil item' more)
      rw [← split] at whole
      simpa [List.intercalate_cons_cons] using whole

/-! ## Printed characters -/

def Printed (c : Char) : Prop :=
  WordChar c ∨ c ∈ ['(', ')', ',', ' ', ':', '-', '.']

instance : DecidablePred Printed := fun c =>
  inferInstanceAs (Decidable (WordChar c ∨ _))

theorem Word.printed {text : List Char} (isWord : Word text) :
    ∀ c ∈ text, Printed c :=
  fun c member => .inl (isWord.letters c member)

theorem printed_intercalate {α : Type} {values : List α}
    {form : α → List Char}
    (each : ∀ value ∈ values, ∀ c ∈ form value, Printed c) :
    ∀ c ∈ [',', ' '].intercalate (values.map form), Printed c := by
  induction values with
  | nil => exact List.forall_mem_nil _
  | cons first others ih =>
      obtain ⟨here, others_printed⟩ := List.forall_mem_cons.mp each
      cases others with
      | nil => simpa using here
      | cons second others =>
          have separator : ∀ c ∈ [',', ' '], Printed c := by simp [Printed]
          rw [List.map_cons, List.map_cons, List.intercalate_cons_cons]
          simp only [List.forall_mem_append]
          exact ⟨⟨here, separator⟩, ih others_printed⟩

end Statement

open Statement (Ending spaces_nil spaces_blank writtenItems_intercalate Printed
  printed_intercalate isBlank_of_wordChar readClause readClause_iff
  readKnowledge_iff allBlank_of_read)
open Text (allBlank Trimmed IsLine trimmed_self cutLines_intercalate)

theorem Term.WellFormed.written {arg : Term} (wellFormed : arg.WellFormed)
    {gap : List Char} (spaces : Spaces gap) :
    Term.Written (gap ++ arg.name.toList) arg := by
  obtain ⟨word, kind⟩ := wellFormed
  cases arg with
  | const name => exact .const (word.written spaces) fun capitalized =>
      nomatch kind.mpr capitalized
  | var v => exact .var (word.written spaces) (kind.mp rfl)

theorem Predicate.toList_text (p : Predicate) :
    p.text.toList = p.name.toList ++ (['('] ++
      ([',', ' '].intercalate (p.args.map fun arg => arg.name.toList) ++
        [')'])) := by
  simp [Predicate.text, String.toList_intercalate, Function.comp_def]

theorem Predicate.WellFormed.written {p : Predicate}
    (wellFormed : p.WellFormed) {gap : List Char} (spaces : Spaces gap) :
    Predicate.Written (gap ++ p.text.toList) p := by
  obtain ⟨word, args⟩ := wellFormed
  have arguments : WrittenArguments
      ([',', ' '].intercalate (p.args.map fun arg => arg.name.toList))
      p.args := by
    cases same : p.args with
    | nil => exact .none
    | cons first others =>
        rw [same] at args
        exact .some (writtenItems_intercalate
          (fun arg member _ => (args arg member).written) spaces_nil)
  have written := Predicate.Written.mk (word.written spaces) spaces_nil
    arguments spaces_nil
  simpa [Predicate.toList_text] using written

theorem Clause.toList_text_fact (p : Predicate) :
    (Clause.fact p).text.toList = p.text.toList ++ ['.'] := by
  simp [Clause.text]

theorem Clause.toList_text_rule (r : Rule) :
    (Clause.rule r).text.toList =
      r.head.text.toList ++ ([' ', ':', '-', ' '] ++
        [',', ' '].intercalate (r.body.map fun goal => goal.text.toList)) ++
        ['.'] := by
  simp [Clause.text, Rule.text, String.toList_intercalate, Function.comp_def]

theorem Clause.WellFormed.whole {c : Clause} (wellFormed : c.WellFormed) :
    Whole Clause.Written c.text.toList c := by
  have period : Ending ['.'] := .period spaces_nil spaces_nil
  cases c with
  | fact p =>
      rw [Clause.toList_text_fact]
      exact ⟨_, _, rfl, .fact (Predicate.WellFormed.written wellFormed spaces_nil),
        period⟩
  | rule r =>
      obtain ⟨head, goals, nonempty⟩ := wellFormed
      obtain ⟨first, others, same⟩ := List.exists_cons_of_ne_nil nonempty
      rw [same] at goals
      have body := writtenItems_intercalate
        (fun goal member _ => (goals goal member).written) spaces_blank
      rw [← same] at body
      rw [Clause.toList_text_rule]
      exact ⟨_, _, rfl, .rule (head.written spaces_nil) spaces_blank body,
        period⟩

/-! ## Texts -/

theorem Predicate.WellFormed.printed {p : Predicate}
    (wellFormed : p.WellFormed) : ∀ c ∈ p.text.toList, Printed c := by
  have name := wellFormed.word.printed
  have inner := printed_intercalate fun arg member =>
    (wellFormed.args arg member).word.printed
  have opening : ∀ c ∈ ['('], Printed c := by simp [Printed]
  have closing : ∀ c ∈ [')'], Printed c := by simp [Printed]
  rw [Predicate.toList_text]
  simp only [List.forall_mem_append]
  exact ⟨name, opening, inner, closing⟩

theorem Clause.WellFormed.printed {c : Clause} (wellFormed : c.WellFormed) :
    ∀ symbol ∈ c.text.toList, Printed symbol := by
  have period : ∀ symbol ∈ ['.'], Printed symbol := by simp [Printed]
  cases c with
  | fact p =>
      rw [Clause.toList_text_fact, List.forall_mem_append]
      exact ⟨Predicate.WellFormed.printed wellFormed, period⟩
  | rule r =>
      have body := printed_intercalate fun goal member =>
        (wellFormed.body goal member).printed
      have sign : ∀ symbol ∈ [' ', ':', '-', ' '], Printed symbol := by
        simp [Printed]
      rw [Clause.toList_text_rule]
      simp only [List.forall_mem_append]
      exact ⟨⟨wellFormed.head.printed, sign, body⟩, period⟩

/-- Nothing is trimmed from a text that starts with a letter and ends with a
sign. -/
theorem Statement.trimmed_of_wordChar {first last : Char} {middle : List Char}
    (letter : WordChar first) (solid : Text.isBlank last = false) :
    Trimmed (first :: (middle ++ [last])) (first :: (middle ++ [last])) := by
  apply trimmed_self
  · rintro _ ⟨rfl⟩
    exact isBlank_of_wordChar letter
  · rw [← List.cons_append, List.getLast?_concat]
    rintro _ ⟨rfl⟩
    exact solid

/-- The text of a predicate starts with a name and ends with a parenthesis. -/
theorem Predicate.WellFormed.shape {p : Predicate} (wellFormed : p.WellFormed) :
    ∃ first middle, p.text.toList = first :: (middle ++ [')']) ∧
      WordChar first := by
  obtain ⟨nonempty, letters⟩ := wellFormed.word
  obtain ⟨first, rest, name⟩ := List.exists_cons_of_ne_nil nonempty
  have split := p.toList_text
  rw [name] at letters
  rw [name, ← List.append_assoc ['('], ← List.append_assoc,
    List.cons_append] at split
  exact ⟨first, _, split, letters first List.mem_cons_self⟩

theorem Clause.WellFormed.word {c : Clause} (wellFormed : c.WellFormed) :
    Word c.name.toList := by
  cases c with
  | fact p => exact Predicate.WellFormed.word wellFormed
  | rule r => exact wellFormed.head.word

theorem Clause.exists_text (c : Clause) :
    ∃ middle, c.text.toList = c.head.text.toList ++ (middle ++ ['.']) := by
  cases c with
  | fact p => exact ⟨[], Clause.toList_text_fact p⟩
  | rule r =>
      rw [Clause.toList_text_rule, List.append_assoc]
      exact ⟨_, rfl⟩

/-- The text of a clause starts with a name and ends with a period. -/
theorem Clause.WellFormed.shape {c : Clause} (wellFormed : c.WellFormed) :
    ∃ first middle, c.text.toList = first :: (middle ++ ['.']) ∧
      WordChar first := by
  obtain ⟨nonempty, letters⟩ := wellFormed.word
  obtain ⟨first, rest, name⟩ := List.exists_cons_of_ne_nil nonempty
  obtain ⟨middle, split⟩ := c.exists_text
  rw [name] at letters
  rw [Predicate.toList_text, show c.head.name.toList = first :: rest from name,
    List.append_assoc, List.cons_append, ← List.append_assoc _ middle,
    ← List.append_assoc] at split
  exact ⟨first, _, split, letters first List.mem_cons_self⟩

/-- Nothing is trimmed from the text of a clause. -/
theorem Clause.WellFormed.trimmed {c : Clause} (wellFormed : c.WellFormed) :
    Trimmed c.text.toList c.text.toList := by
  obtain ⟨first, middle, shape, letter⟩ := wellFormed.shape
  rw [shape]
  exact Statement.trimmed_of_wordChar letter (by decide)

theorem Clause.WellFormed.isLine {c : Clause} (wellFormed : c.WellFormed) :
    IsLine '\r' '\n' c.text.toList where
  nonempty := by
    obtain ⟨_, _, shape, _⟩ := wellFormed.shape
    rw [shape]
    exact List.cons_ne_nil _ _
  noReturn member := absurd (wellFormed.printed _ member) (by decide)
  noFeed member := absurd (wellFormed.printed _ member) (by decide)

/-- Printed clauses with line feeds between them are the lines of a text. -/
theorem Clause.lines_texts {clauses : List Clause}
    (each : ∀ c ∈ clauses, c.WellFormed) :
    Text.lines ("\n".intercalate (clauses.map Clause.text)).toList =
      clauses.map fun c => c.text.toList := by
  rw [String.toList_intercalate, List.map_map]
  refine cutLines_intercalate ?_
  simp only [List.forall_mem_map]
  exact fun c member => (each c member).isLine

/-! ## Reading back -/

/-- A well-formed predicate is read back from its text. -/
theorem Predicate.WellFormed.read {p : Predicate} (wellFormed : p.WellFormed) :
    Predicate.read p.text = .ok p := by
  obtain ⟨first, middle, shape, letter⟩ := wellFormed.shape
  have trimmed : Trimmed (first :: (middle ++ [')'])) _ :=
    Statement.trimmed_of_wordChar letter (by decide)
  rw [← shape] at trimmed
  exact Statement.readPredicate_iff.mpr ⟨_, trimmed, _, [],
    (List.append_nil _).symm, wellFormed.written spaces_nil, .plain spaces_nil⟩

/-- A well-formed clause is read back from its text. -/
theorem Clause.WellFormed.read {c : Clause} (wellFormed : c.WellFormed) :
    readClause c.text.toList = .ok c :=
  readClause_iff.mpr ⟨_, wellFormed.trimmed, wellFormed.whole⟩

/--
A clause is read back from its text exactly if it is well-formed.  Only such
clauses are ever read, and a list of them is read back from its lines.
-/
theorem Clause.read_text_iff :
    (∀ c : Clause, Clause.read c.text = .ok c ↔ c.WellFormed) ∧
    (∀ text c, Clause.read text = .ok c → c.WellFormed) ∧
    (∀ clauses : List Clause, (∀ c ∈ clauses, c.WellFormed) →
      Clause.readAll ("\n".intercalate (clauses.map Clause.text)) =
        .ok clauses) := by
  refine ⟨fun c => ⟨Clause.wellFormed_of_read, Clause.WellFormed.read⟩,
    fun _ _ => Clause.wellFormed_of_read, fun clauses each => ?_⟩
  have isRead : ∀ c ∈ clauses, readClause c.text.toList = .ok c :=
    fun c member => (each c member).read
  have solid : ∀ line ∈ clauses.map fun c => c.text.toList,
      (!allBlank line) = true := by
    simp only [List.forall_mem_map]
    exact fun c member => by rw [allBlank_of_read (isRead c member), Bool.not_false]
  apply readKnowledge_iff.mpr
  rw [Clause.lines_texts each, List.filter_eq_self.mpr solid, List.forall₂_map_left_iff]
  exact List.forall₂_same.mpr isRead

/-- The clauses about paths are read back from their lines. -/
theorem Clause.read_text_iff_paths :
    (∀ c ∈ Example.paths.toList, c.WellFormed) ∧
    Clause.readAll
        ("\n".intercalate (Example.paths.toList.map Clause.text)) =
      .ok Example.paths.toList := by
  have wellFormed : ∀ c ∈ Example.paths.toList, c.WellFormed := by
    decide
  exact ⟨wellFormed, Clause.read_text_iff.2.2 _ wellFormed⟩

end HornLogic
