import HornLogic.Proofs.Statement.Stopping

/-!
# Tokens that are not there

Reading a token stops in front of a character that cannot begin it, and the space in
front of this character is skipped.  So it is known what comes next where reading stops:
neither space nor what was expected there.
-/

namespace HornLogic

namespace Statement

open Text (skipSpace skipSpace_cons isSpace)

/-! ## Names and symbols -/

/-- Neither space nor an expected character comes next. -/
def Blocked (expected : Char → Prop) (left : List Char) : Prop :=
  ∀ c ∈ left.head?, isSpace c = false ∧ ¬ expected c

section Blocked

variable {expected : Char → Prop} {c : Char} {left behind behind' : List Char}

theorem Blocked.congr (blocked : Blocked expected (c :: behind)) :
    Blocked expected (c :: behind') :=
  blocked

theorem Blocked.imp {other : Char → Prop} (blocked : Blocked expected left)
    (fewer : ∀ c, other c → expected c) : Blocked other left :=
  fun c first => ⟨(blocked c first).1, fun isOther => (blocked c first).2 (fewer c isOther)⟩

theorem Blocked.skipSpace_append (blocked : Blocked expected left) {gap : List Char}
    (spaces : Spaces gap) : skipSpace (gap ++ left) = left := by
  rw [Statement.skipSpace_append spaces]
  cases left with
  | nil => rfl
  | cons c behind => exact skipSpace_cons (blocked c rfl).1 behind

/-- Space is skipped up to something else. -/
theorem exists_blocked (text : List Char) :
    ∃ gap, Spaces gap ∧ text = gap ++ skipSpace text ∧
      Blocked (fun _ => False) (skipSpace text) := by
  obtain ⟨gap, spaces, split⟩ := exists_gap text
  refine ⟨gap, spaces, split, fun c first => ⟨?_, id⟩⟩
  have solid := List.head?_dropWhile_not isSpace text
  rw [show text.dropWhile isSpace = skipSpace text from rfl,
    Option.mem_def.mp first] at solid
  exact solid

end Blocked

theorem identifier_eq_error_iff {text left : List Char} :
    identifier text = .error left ↔
      ∃ gap, text = gap ++ left ∧ Spaces gap ∧ Blocked WordChar left := by
  constructor
  · intro stops
    obtain ⟨gap, spaces, split, blocked⟩ := exists_blocked text
    rw [identifier] at stops
    split at stops
    · rename_i nothing
      cases stops
      refine ⟨gap, split, spaces, fun c first => ⟨(blocked c first).1, fun letter => ?_⟩⟩
      obtain ⟨behind, starts⟩ := List.head?_eq_some_iff.mp first
      rw [starts, List.takeWhile_cons_of_pos (isWordChar_iff.mpr letter)] at nothing
      cases nothing
    · cases stops
  · rintro ⟨gap, rfl, spaces, blocked⟩
    rw [identifier, blocked.skipSpace_append spaces]
    cases left with
    | nil => rfl
    | cons c behind =>
        have other : ¬ isWordChar c = true := fun letter =>
          (blocked c rfl).2 (isWordChar_iff.mp letter)
        rw [List.takeWhile_cons_of_neg other]

theorem symbol_eq_error_iff {c : Char} {text left : List Char} :
    symbol [c] text = .error left ↔
      ∃ gap, text = gap ++ left ∧ Spaces gap ∧ Blocked (· = c) left := by
  have stops_iff : ∀ rest, ([c].isPrefixOf? rest = none) ↔ rest.head? ≠ some c := by
    intro rest
    cases rest with
    | nil => simp [List.isPrefixOf?]
    | cons d rest =>
        by_cases same : c = d
        · simp [List.isPrefixOf?, same]
        · simp [List.isPrefixOf?, same, Ne.symm same]
  constructor
  · intro stops
    obtain ⟨gap, spaces, split, blocked⟩ := exists_blocked text
    rw [symbol] at stops
    split at stops
    · rename_i missing
      cases stops
      refine ⟨gap, split, spaces, fun d first => ⟨(blocked d first).1, ?_⟩⟩
      rintro rfl
      exact (stops_iff _).mp missing first
    · cases stops
  · rintro ⟨gap, rfl, spaces, blocked⟩
    have missing : left.head? ≠ some c := fun first => (blocked c first).2 rfl
    rw [symbol, blocked.skipSpace_append spaces, (stops_iff left).mpr missing]

theorem term_eq_error_iff {text left : List Char} :
    term text = .error left ↔
      ∃ gap, text = gap ++ left ∧ Spaces gap ∧ Blocked WordChar left := by
  rw [← identifier_eq_error_iff]
  refine bind_eq_error.trans ⟨?_, .inl⟩
  rintro (stops | ⟨_, _, stops⟩)
  · exact stops
  · cases stops

def NoArgument (text : List Char) : Prop :=
  ∀ front behind arg, text = front ++ behind → ¬ Term.Written front arg

theorem noArgument_iff {text : List Char} :
    NoArgument text ↔ ∃ left, term text = .error left := by
  constructor
  · intro none
    cases found : term text with
    | error left => exact ⟨left, rfl⟩
    | ok result =>
        obtain ⟨front, split, written⟩ := term_reads.sound found
        exact absurd written (none front result.2 result.1 split)
  · rintro ⟨left, stops⟩ front behind arg rfl written
    obtain ⟨gap, split, spaces, blocked⟩ := term_eq_error_iff.mp stops
    obtain ⟨name, @⟨gap', word, spaces', isWord⟩, _⟩ := written_term_iff.mp written
    obtain ⟨first, others, rfl⟩ := List.exists_cons_of_ne_nil isWord.nonempty
    have letter := isWord.letters first List.mem_cons_self
    -- behind the space stands the name, where no character of a word should be
    have starts : left = first :: (others ++ behind) := by
      rw [← blocked.skipSpace_append spaces, ← split, List.append_assoc,
        skipSpace_append spaces', List.cons_append,
        skipSpace_cons (isSpace_of_wordChar letter)]
    rw [starts] at blocked
    exact (blocked first rfl).2 letter

/-! ## Arguments -/

theorem unextended_of_identifier {text rest : List Char} {name : String}
    (found : identifier text = .ok (name, rest)) : Unextended rest := by
  rw [identifier] at found
  split at found
  · cases found
  · cases found
    intro c tail starts letter
    have other := List.head?_dropWhile_not isWordChar (skipSpace text)
    simp only [starts, List.head?_cons, isWordChar_iff.mpr letter] at other
    cases other

theorem unextended_of_term {text rest : List Char} {arg : Term}
    (found : term text = .ok (arg, rest)) : Unextended rest := by
  obtain ⟨⟨name, left⟩, named, same⟩ := bind_eq_ok.mp found
  cases same
  exact unextended_of_identifier named

/-- What follows each item follows the last one. -/
theorem moreItems_follows {α : Type} {item : Reader α} {follow : List Char → Prop}
    (each : ∀ {text value rest}, item text = .ok (value, rest) → follow rest)
    {text : List Char} (here : follow text) : follow (moreItems item text).2 := by
  fun_induction moreItems item text with
  | case1 text _ _ => exact here
  | case2 text _ _ _ _ => exact here
  | case3 text afterComma _ value middle found _ values rest others ih =>
      rw [others] at ih
      exact ih (each found)
  | case4 text afterComma _ value rest found _ => exact each found

/-- There are no arguments, or they are read up to where no comma with a further one
behind it follows. -/
theorem arguments_cases (text : List Char) :
    (NoArgument text ∧ arguments text = ([], text)) ∨
      ∃ inner rest args, text = inner ++ rest ∧
        WrittenItems Term.Written inner args ∧ Unextended rest ∧
        moreItems term rest = ([], rest) ∧ arguments text = (args, rest) := by
  rw [arguments]
  cases found : items term text with
  | error left =>
      refine .inl ⟨noArgument_iff.mpr ?_, rfl⟩
      rcases bind_eq_error.mp found with stops | ⟨_, _, stops⟩
      · exact ⟨left, stops⟩
      · cases stops
  | ok result =>
      obtain ⟨args, rest⟩ := result
      obtain ⟨inner, split, isItems⟩ := terms_reads.sound found
      obtain ⟨⟨first, middle⟩, isFirst, same⟩ := bind_eq_ok.mp found
      have unextended : Unextended (moreItems term middle).2 :=
        moreItems_follows (fun found => unextended_of_term found)
          (unextended_of_term isFirst)
      have ends := moreItems_moreItems term_reads middle
      cases same
      exact .inr ⟨inner, _, _, split, isItems, unextended, ends, rfl⟩

theorem arguments_of_noArgument {text : List Char} (none : NoArgument text) :
    arguments text = ([], text) := by
  obtain ⟨left, stops⟩ := noArgument_iff.mp none
  have unread : items term text = .error left := bind_eq_error.mpr (.inl stops)
  rw [arguments, unread]

theorem arguments_append {inner rest : List Char} {args : List Term}
    (isItems : WrittenItems Term.Written inner args) (unextended : Unextended rest)
    (ends : moreItems term rest = ([], rest)) :
    arguments (inner ++ rest) = (args, rest) := by
  obtain @⟨text, later, value, values, isItem, more⟩ := isItems
  have separated : ∀ gap tail, Spaces gap → Unextended (gap ++ ',' :: tail) :=
    fun _ tail spaces => unextended_gap (by decide) spaces tail
  have first : term (text ++ (later ++ rest)) = .ok (value, later ++ rest) :=
    term_reads.complete isItem (more.follows separated unextended)
  have others : moreItems term (later ++ rest) = (values, rest) := by
    rw [moreItems_append term_reads more separated unextended, ends, List.append_nil]
  have found : items term (text ++ (later ++ rest)) = .ok (value :: values, rest) := by
    refine bind_eq_ok.mpr ⟨_, first, ?_⟩
    dsimp only
    rw [others]
    rfl
  rw [arguments, List.append_assoc, found]

/-! ## What may end a statement -/

section Ends

variable {expected : Char → Prop} {gap gap' left rest : List Char}

theorem Blocked.unique {other : Char → Prop}
    (blocked : Blocked expected left) (spaces : Spaces gap)
    (blocked' : Blocked other rest) (spaces' : Spaces gap')
    (same : gap ++ left = gap' ++ rest) : left = rest := by
  rw [← blocked.skipSpace_append spaces, same, blocked'.skipSpace_append spaces']

theorem skipPeriod_of_blocked (spaces : Spaces gap) (blocked : Blocked (· = '.') left) :
    skipPeriod (gap ++ left) = left := by
  rw [skipPeriod, blocked.skipSpace_append spaces]
  split
  · exact absurd rfl (blocked _ rfl).2
  · rfl

theorem skipPeriod_period (spaces : Spaces gap) (spaces' : Spaces gap')
    (blocked : Blocked (fun _ => False) left) :
    skipPeriod (gap ++ '.' :: (gap' ++ left)) = left := by
  rw [skipPeriod, skipSpace_append spaces, skipSpace_cons (by decide)]
  exact blocked.skipSpace_append spaces'

/-- What may end a statement is dropped, and no more of it follows. -/
theorem skipPeriod_cases (rest : List Char) :
    (∃ gap, Spaces gap ∧ rest = gap ++ skipPeriod rest ∧
      Blocked (· = '.') (skipPeriod rest)) ∨
    (∃ gap gap', Spaces gap ∧ Spaces gap' ∧
      rest = gap ++ '.' :: (gap' ++ skipPeriod rest) ∧
      Blocked (fun _ => False) (skipPeriod rest)) := by
  obtain ⟨gap, spaces, split, blocked⟩ := exists_blocked rest
  rw [skipPeriod]
  split
  · rename_i behind period
    obtain ⟨gap', spaces', split', blocked'⟩ := exists_blocked behind
    refine .inr ⟨gap, gap', spaces, spaces', ?_, blocked'⟩
    rw [← split', ← period]
    exact split
  · rename_i noPeriod
    refine .inl ⟨gap, spaces, split, fun c first => ⟨(blocked c first).1, ?_⟩⟩
    rintro rfl
    obtain ⟨behind, starts⟩ := List.head?_eq_some_iff.mp first
    exact noPeriod behind starts

end Ends

end Statement

end HornLogic
