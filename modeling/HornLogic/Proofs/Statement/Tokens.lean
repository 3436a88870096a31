import HornLogic.Proofs.Statement.Written
import HornLogic.Proofs.Text
import Mathlib.Data.List.TakeWhile
import Mathlib.Data.List.Infix

/-!
# Reading tokens

What the readers for names, arguments and signs take from a text.  A name is
read to the last of its characters, so it is only read back where no further
character of a word follows it.
-/

namespace HornLogic.Statement

open Text (skipSpace skipSpace_cons isSpace isBlank isBlank_of_isSpace)

/-! ## Characters -/

theorem isSpace_iff {c : Char} :
    isSpace c = true ↔ c = ' ' ∨ c = '\t' ∨ c = '\r' ∨ c = '\n' := by
  simp [isSpace, or_assoc]

theorem isUpper_iff {c : Char} : c.isUpper = true ↔ Capital c :=
  decide_eq_true_iff

theorem isWordChar_iff {c : Char} : isWordChar c = true ↔ WordChar c := by
  have both : ∀ low high : Char, (decide (low.val ≤ c.val) &&
      decide (c.val ≤ high.val)) = true ↔ low ≤ c ∧ c ≤ high := by
    simp [Char.le_def]
  have lower : c.isLower = true ↔ 'a' ≤ c ∧ c ≤ 'z' := both 'a' 'z'
  have digit : c.isDigit = true ↔ '0' ≤ c ∧ c ≤ '9' := both '0' '9'
  change (c.isUpper || c.isLower || c.isDigit || c == '_') = true ↔ WordChar c
  simp only [WordChar, Bool.or_eq_true, isUpper_iff, lower, digit, beq_iff_eq,
    or_assoc]

instance : DecidablePred WordChar := fun _ =>
  decidable_of_iff _ isWordChar_iff

theorem word_singleton {c : Char} (letter : WordChar c) : Word [c] :=
  ⟨List.cons_ne_nil _ _, List.forall_mem_singleton.mpr letter⟩

theorem isBlank_of_wordChar {c : Char} (letter : WordChar c) :
    isBlank c = false := by
  have order : ∀ {a b : Char}, a ≤ b → a.toNat ≤ b.toNat :=
    fun le => UInt32.le_iff_toNat_le.mp le
  have bounds : '0'.toNat ≤ c.toNat ∧ c.toNat ≤ 'z'.toNat := by
    rcases letter with ⟨low, high⟩ | ⟨low, high⟩ | ⟨low, high⟩ | rfl
    · exact ⟨Nat.le_trans (by decide) (order low),
        Nat.le_trans (order high) (by decide)⟩
    · exact ⟨Nat.le_trans (by decide) (order low), order high⟩
    · exact ⟨order low, Nat.le_trans (order high) (by decide)⟩
    · decide
  have codes : '0'.toNat = 48 ∧ 'z'.toNat = 122 := by decide
  simp only [isBlank, Bool.or_eq_false_iff, Bool.and_eq_false_iff,
    decide_eq_false_iff_not, beq_eq_false_iff_ne]
  omega

theorem isSpace_of_wordChar {c : Char} (letter : WordChar c) :
    isSpace c = false := by
  rw [← Bool.not_eq_true]
  intro space
  have blank := isBlank_of_isSpace space
  rw [isBlank_of_wordChar letter] at blank
  cases blank

/-! ## Space -/

theorem spaces_iff {text : List Char} :
    Spaces text ↔ ∀ c ∈ text, isSpace c = true := by
  simp only [Spaces, isSpace_iff]

theorem spaces_nil : Spaces [] :=
  List.forall_mem_nil _

/-- What is skipped in front of a token is space. -/
theorem exists_gap (text : List Char) :
    ∃ gap, Spaces gap ∧ text = gap ++ skipSpace text := by
  refine ⟨text.takeWhile isSpace, ?_, List.takeWhile_append_dropWhile.symm⟩
  exact spaces_iff.mpr fun c member => List.mem_takeWhile_imp member

theorem skipSpace_append {gap : List Char} (spaces : Spaces gap)
    (rest : List Char) : skipSpace (gap ++ rest) = skipSpace rest :=
  List.dropWhile_append_of_pos (spaces_iff.mp spaces)

theorem skipSpace_eq_nil_iff {text : List Char} :
    skipSpace text = [] ↔ Spaces text := by
  rw [skipSpace, List.dropWhile_eq_nil_iff, spaces_iff]

/-! ## Readers -/

/-- The reader takes from a text what is written so, and takes all of it where
what follows allows. -/
structure Reads {α : Type} (reader : Reader α)
    (written : List Char → α → Prop) (follow : List Char → Prop) : Prop where
  sound : ∀ {text value rest}, reader text = .ok (value, rest) →
    ∃ taken, text = taken ++ rest ∧ written taken value
  complete : ∀ {taken value rest}, written taken value → follow rest →
    reader (taken ++ rest) = .ok (value, rest)

/-- What is left behind the text that was read is an end of the whole. -/
theorem Reads.suffix {α : Type} {reader : Reader α} {written : List Char → α → Prop}
    {follow : List Char → Prop} (reads : Reads reader written follow)
    {text rest : List Char} {value : α} (found : reader text = .ok (value, rest)) :
    rest <:+ text := by
  obtain ⟨taken, split, _⟩ := reads.sound found
  exact ⟨taken, split.symm⟩

/-- A step that yields a result, and the step before it did. -/
theorem bind_eq_ok {ε α β : Type} {step : Except ε α} {next : α → Except ε β}
    {b : β} : (step >>= next) = .ok b ↔ ∃ a, step = .ok a ∧ next a = .ok b := by
  constructor
  · intro yields
    cases step with
    | error e => cases yields
    | ok a => exact ⟨a, rfl, yields⟩
  · rintro ⟨a, rfl, yields⟩
    exact yields

def Unextended (rest : List Char) : Prop :=
  ∀ c tail, rest = c :: tail → ¬ WordChar c

/-- Words are cut where no character of a word follows. -/
theorem takeWhile_word {word rest : List Char}
    (letters : ∀ c ∈ word, WordChar c) (unextended : Unextended rest) :
    (word ++ rest).takeWhile isWordChar = word ∧
      (word ++ rest).dropWhile isWordChar = rest := by
  refine Text.cut_append (fun c member => isWordChar_iff.mpr (letters c member)) ?_
  cases rest with
  | nil => exact fun c head => nomatch head
  | cons c tail =>
      rintro _ ⟨⟩
      exact Bool.eq_false_iff.mpr fun letter =>
        unextended c tail rfl (isWordChar_iff.mp letter)

theorem identifier_reads : Reads identifier WrittenName Unextended where
  sound {text name rest} found := by
    obtain ⟨gap, spaces, split⟩ := exists_gap text
    rw [identifier] at found
    split at found
    · cases found
    · rename_i word nonempty
      cases found
      refine ⟨gap ++ (skipSpace text).takeWhile isWordChar, ?_, .mk spaces ?_⟩
      · rw [List.append_assoc, List.takeWhile_append_dropWhile]
        exact split
      · refine ⟨nonempty, fun c member => ?_⟩
        exact isWordChar_iff.mp (List.mem_takeWhile_imp member)
  complete {taken name rest} written unextended := by
    obtain @⟨gap, word, spaces, nonempty, letters⟩ := written
    obtain ⟨cut, left⟩ := takeWhile_word letters unextended
    have skipped : skipSpace (gap ++ word ++ rest) = word ++ rest := by
      rw [List.append_assoc, skipSpace_append spaces]
      cases word with
      | nil => exact absurd rfl nonempty
      | cons c tail =>
          exact skipSpace_cons
            (isSpace_of_wordChar (letters c List.mem_cons_self)) _
    rw [identifier, skipped, cut, left]
    cases word with
    | nil => exact absurd rfl nonempty
    | cons c tail => rfl

theorem isName_iff {name : String} :
    Variable.isName name = true ↔ Capitalized name := by
  rw [Variable.isName, Capitalized]
  cases name.toList with
  | nil => simp
  | cons c rest => simp [isUpper_iff]

/-- An argument is a token of the kind that its first character tells. -/
theorem written_term_iff {text : List Char} {arg : Term} :
    Term.Written text arg ↔
      ∃ name, WrittenName text name ∧ arg = Term.ofToken name := by
  constructor
  · rintro (⟨named, capitalized⟩ | ⟨named, other⟩)
    · exact ⟨_, named, by rw [Term.ofToken, if_pos (isName_iff.mpr capitalized)]⟩
    · refine ⟨_, named, ?_⟩
      rw [Term.ofToken, if_neg fun isName => other (isName_iff.mp isName)]
  · rintro ⟨name, named, rfl⟩
    rw [Term.ofToken]
    split
    · rename_i isName
      exact .var named (isName_iff.mp isName)
    · rename_i other
      exact .const named fun capitalized =>
        other (isName_iff.mpr capitalized)

theorem term_reads : Reads term Term.Written Unextended where
  sound {text arg rest} found := by
    obtain ⟨⟨name, left⟩, named, same⟩ := bind_eq_ok.mp found
    cases same
    obtain ⟨taken, split, written⟩ := identifier_reads.sound named
    exact ⟨taken, split, written_term_iff.mpr ⟨name, written, rfl⟩⟩
  complete {taken arg rest} written unextended := by
    obtain ⟨name, named, rfl⟩ := written_term_iff.mp written
    exact bind_eq_ok.mpr
      ⟨_, identifier_reads.complete named unextended, rfl⟩

/-- A sign that starts with no space is read with the space in front of it. -/
theorem symbol_eq_ok_iff {c : Char} (solid : isSpace c = false)
    {sign text rest : List Char} :
    symbol (c :: sign) text = .ok ((), rest) ↔
      ∃ gap, Spaces gap ∧ text = gap ++ c :: (sign ++ rest) := by
  have reads : symbol (c :: sign) text = .ok ((), rest) ↔
      skipSpace text = c :: (sign ++ rest) := by
    rw [symbol, ← List.cons_append, @eq_comm _ (skipSpace text),
      ← List.isPrefixOf?_eq_some_iff_append_eq]
    cases (c :: sign).isPrefixOf? (skipSpace text) <;> simp
  rw [reads]
  constructor
  · intro starts
    obtain ⟨gap, spaces, split⟩ := exists_gap text
    exact ⟨gap, spaces, by rw [← starts]; exact split⟩
  · rintro ⟨gap, spaces, rfl⟩
    rw [skipSpace_append spaces, skipSpace_cons solid]

end HornLogic.Statement
