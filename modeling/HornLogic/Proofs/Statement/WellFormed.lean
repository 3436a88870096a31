import HornLogic.Proofs.Plain
import HornLogic.Proofs.Statement.Acceptance

/-!
# Well-formed clauses

The names of a well-formed clause are words, its variables are the arguments
with a capital in front, and its rules have goals.  Nothing else is written,
and so nothing else is read.  In particular no variable of a generation is:
what was read is plain, as the searches need it.
-/

namespace HornLogic

open Statement (Word Capitalized)

/-! ## Well-formed clauses -/

/-- The name is a word, which has a capital in front exactly if it stands for
a variable. -/
structure Term.WellFormed (arg : Term) : Prop where
  word : Word arg.name.toList
  kind : arg.isVar = true ↔ Capitalized arg.name

structure Predicate.WellFormed (p : Predicate) : Prop where
  word : Word p.name.toList
  args : ∀ arg ∈ p.args, arg.WellFormed

/-- A rule has at least one goal. -/
structure Rule.WellFormed (r : Rule) : Prop where
  head : r.head.WellFormed
  body : ∀ goal ∈ r.body, goal.WellFormed
  goals : r.body ≠ []

/-- The clauses that can be written. -/
def Clause.WellFormed : Clause → Prop
  | .fact p => p.WellFormed
  | .rule r => r.WellFormed

theorem Statement.word_iff {text : List Char} :
    text ≠ [] ∧ text.all isWordChar = true ↔ Word text := by
  simp only [List.all_eq_true, isWordChar_iff]
  exact ⟨fun ⟨nonempty, letters⟩ => ⟨nonempty, letters⟩,
    fun ⟨nonempty, letters⟩ => ⟨nonempty, letters⟩⟩

-- Looking through the text, not through all characters there are.
instance : DecidablePred Word := fun _ =>
  decidable_of_iff _ Statement.word_iff

instance : DecidablePred Capitalized := fun _ =>
  decidable_of_iff _ Statement.isName_iff

instance : DecidablePred Term.WellFormed := fun arg =>
  decidable_of_iff (Word arg.name.toList ∧
      (arg.isVar = true ↔ Capitalized arg.name))
    ⟨fun ⟨word, kind⟩ => ⟨word, kind⟩, fun ⟨word, kind⟩ => ⟨word, kind⟩⟩

instance : DecidablePred Predicate.WellFormed := fun p =>
  decidable_of_iff (Word p.name.toList ∧ ∀ arg ∈ p.args, arg.WellFormed)
    ⟨fun ⟨word, args⟩ => ⟨word, args⟩, fun ⟨word, args⟩ => ⟨word, args⟩⟩

instance : DecidablePred Rule.WellFormed := fun r =>
  decidable_of_iff (r.head.WellFormed ∧ (∀ goal ∈ r.body, goal.WellFormed) ∧
      r.body ≠ [])
    ⟨fun ⟨head, body, goals⟩ => ⟨head, body, goals⟩,
      fun ⟨head, body, goals⟩ => ⟨head, body, goals⟩⟩

instance : DecidablePred Clause.WellFormed
  | .fact p => inferInstanceAs (Decidable p.WellFormed)
  | .rule r => inferInstanceAs (Decidable r.WellFormed)

example : ¬ Clause.WellFormed (.rule ⟨⟨"h", [.var ⟨"X"⟩]⟩, []⟩) :=
  fun wellFormed => wellFormed.goals rfl

/-! ## What is written is well-formed -/

namespace Statement

theorem WrittenName.word {text : List Char} {name : String}
    (named : WrittenName text name) : Word name.toList := by
  obtain ⟨_, isWord⟩ := named
  rw [String.toList_ofList]
  exact isWord

section Items

variable {α : Type} {written : List Char → α → Prop} {holds : α → Prop}
  {text : List Char} {values : List α}

theorem WrittenMore.forall_mem (more : WrittenMore written text values)
    (each : ∀ text value, written text value → holds value) :
    ∀ value ∈ values, holds value := by
  induction more with
  | nil => exact List.forall_mem_nil _
  | cons _ item _ ih => exact List.forall_mem_cons.mpr ⟨each _ _ item, ih⟩

theorem WrittenItems.forall_mem (items : WrittenItems written text values)
    (each : ∀ text value, written text value → holds value) :
    ∀ value ∈ values, holds value := by
  obtain ⟨item, more⟩ := items
  exact List.forall_mem_cons.mpr ⟨each _ _ item, more.forall_mem each⟩

theorem WrittenItems.ne_nil (items : WrittenItems written text values) :
    values ≠ [] := by
  obtain ⟨_, _⟩ := items
  exact List.cons_ne_nil _ _

end Items

end Statement

theorem Term.Written.wellFormed {text : List Char} {arg : Term}
    (written : Term.Written text arg) : arg.WellFormed := by
  cases written with
  | var named capitalized => exact ⟨named.word, iff_of_true rfl capitalized⟩
  | const named other => exact ⟨named.word, iff_of_false nofun other⟩

theorem Predicate.Written.wellFormed {text : List Char} {p : Predicate}
    (written : Predicate.Written text p) : p.WellFormed := by
  obtain ⟨named, _, arguments, _⟩ := written
  refine ⟨named.word, ?_⟩
  cases arguments with
  | none => exact List.forall_mem_nil _
  | some items => exact items.forall_mem fun _ _ => Term.Written.wellFormed

theorem Clause.Written.wellFormed {text : List Char} {c : Clause}
    (written : Clause.Written text c) : c.WellFormed := by
  cases written with
  | fact alone => exact alone.wellFormed
  | rule conclusion _ goals =>
      exact ⟨conclusion.wellFormed,
        goals.forall_mem fun _ _ => Predicate.Written.wellFormed, goals.ne_nil⟩

/-! ## Plain variables -/

/-- No word marks a generation. -/
theorem Statement.Word.plain {v : Variable} (word : Word v.name.toList) :
    v.Plain :=
  fun member => absurd (word.letters _ member) (by decide)

theorem Predicate.WellFormed.plain {p : Predicate} (wellFormed : p.WellFormed) :
    p.Plain := by
  intro arg member
  have word := (wellFormed.args arg member).word
  cases arg with
  | const name => exact trivial
  | var v => exact word.plain

/-! ## What is read -/

theorem Clause.wellFormed_of_read {text : List Char} {c : Clause}
    (isRead : Statement.readClause text = .ok c) : c.WellFormed := by
  obtain ⟨_, _, _, _, _, written, _⟩ := Statement.readClause_iff.mp isRead
  exact written.wellFormed

/-- Whatever the other lines are, the clauses of a text are well-formed. -/
theorem Clause.wellFormed_of_mem_readLines {text : String} {c : Clause}
    (member : .ok c ∈ Clause.readLines text) : c.WellFormed := by
  obtain ⟨⟨line, number⟩, _, isRead⟩ := List.mem_filterMap.mp member
  dsimp only at isRead
  split at isRead
  · cases isRead
  · exact wellFormed_of_read
      (Statement.readNumbered_iff.mp (Option.some.inj isRead))

theorem Predicate.wellFormed_of_readQuery {text : String} {p : Predicate}
    (isRead : Predicate.readQuery text = .ok p) : p.WellFormed := by
  obtain ⟨_, _, _, _, _, _, _, _, _, written, _⟩ :=
    Statement.readQuery_iff.mp isRead
  exact written.wellFormed

end HornLogic
