import HornLogic.Proofs.Statement.Acceptance

/-!
# Beginnings of statements

A statement begins with a name.  So the first character of a text that can be
read, white space apart, belongs to a word, and a text that begins with a mark of
another kind cannot be read.
-/

namespace HornLogic

open Text (isSpace isBlank_of_isSpace trim trimmed_iff)

namespace Statement

/-- The first character is space or belongs to a word. -/
inductive Begins : List Char → Prop where
  | mk {first : Char} (rest : List Char)
      (either : isSpace first = true ∨ WordChar first) : Begins (first :: rest)

theorem Begins.append {text : List Char} (begins : Begins text)
    (behind : List Char) : Begins (text ++ behind) := by
  obtain ⟨rest, either⟩ := begins
  exact .mk (rest ++ behind) either

theorem WrittenName.begins {text : List Char} {name : String}
    (named : WrittenName text name) : Begins text := by
  obtain @⟨gap, word, spaces, isWord⟩ := named
  cases gap with
  | nil =>
      obtain ⟨first, rest, rfl⟩ := List.exists_cons_of_ne_nil isWord.nonempty
      exact .mk rest (.inr (isWord.letters first List.mem_cons_self))
  | cons first gap =>
      exact .mk _ (.inl (spaces_iff.mp spaces first List.mem_cons_self))

end Statement

open Statement

theorem Predicate.Written.begins {text : List Char} {p : Predicate}
    (written : Predicate.Written text p) : Begins text := by
  obtain ⟨named, _, _, _⟩ := written
  exact named.begins.append _

theorem Clause.Written.begins {text : List Char} {c : Clause}
    (written : Clause.Written text c) : Begins text := by
  cases written with
  | fact alone => exact alone.begins
  | rule conclusion spaces goals => exact conclusion.begins.append _

namespace Statement

/-- White space apart, the first character of a statement belongs to a word. -/
theorem Stated.exists_wordChar {α : Type} {written : List Char → α → Prop}
    {text : List Char} {value : α} (stated : Stated written text value)
    (each : ∀ {text value}, written text value → Begins text) :
    ∃ first rest, trim text = first :: rest ∧ WordChar first := by
  obtain ⟨middle, trimmed, taken, ending, split, isWritten, _⟩ := stated
  have begins : Begins middle := split ▸ (each isWritten).append ending
  have whole : trim text = middle := trimmed_iff.mp trimmed
  obtain ⟨_, _, starts, _⟩ := trimmed
  obtain @⟨first, rest, either⟩ := begins
  refine ⟨first, rest, whole, ?_⟩
  rcases either with space | letter
  · have blank := isBlank_of_isSpace space
    rw [starts first rfl] at blank
    cases blank
  · exact letter

theorem readPredicate_begins {text : List Char} {p : Predicate}
    (isRead : readPredicate text = .ok p) :
    ∃ first rest, trim text = first :: rest ∧ WordChar first :=
  (readPredicate_iff.mp isRead).exists_wordChar Predicate.Written.begins

theorem readClause_begins {text : List Char} {c : Clause}
    (isRead : readClause text = .ok c) :
    ∃ first rest, trim text = first :: rest ∧ WordChar first :=
  (readClause_iff.mp isRead).exists_wordChar Clause.Written.begins

end Statement

end HornLogic
