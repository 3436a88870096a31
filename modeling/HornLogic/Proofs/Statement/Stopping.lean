import HornLogic.Proofs.Statement.Beginning

/-!
# Where reading stops

A reader that fails stops in front of a rest of its text.  A predicate is read from a
text exactly if one stands at its beginning, and goals are read up to where no comma
with a further predicate behind it follows: what is left of a body begins with no
goal that could have been read.
-/

namespace HornLogic

open Text (byteLength)

namespace Statement

/-! ## Stopping -/

/-- A step that fails, or one behind a step that does not. -/
theorem bind_eq_error {ε α β : Type} {step : Except ε α} {next : α → Except ε β}
    {e : ε} : (step >>= next) = .error e ↔
      step = .error e ∨ ∃ a, step = .ok a ∧ next a = .error e := by
  cases step with
  | error e' => simp [bind, Except.bind]
  | ok a => simp [bind, Except.bind]

theorem identifier_suffix {text left : List Char}
    (stops : identifier text = .error left) : left <:+ text := by
  rw [identifier] at stops
  split at stops
  · cases stops
    exact List.dropWhile_suffix _
  · cases stops

theorem symbol_suffix {sign text left : List Char}
    (stops : symbol sign text = .error left) : left <:+ text := by
  rw [symbol] at stops
  split at stops
  · cases stops
    exact List.dropWhile_suffix _
  · cases stops

/-- Reading a predicate stops in front of a rest of the text. -/
theorem predicate_suffix {text left : List Char}
    (stops : predicate text = .error left) : left <:+ text := by
  rcases bind_eq_error.mp stops with stops | ⟨⟨name, afterName⟩, named, stops⟩
  · exact identifier_suffix stops
  have within : afterName <:+ text := identifier_reads.suffix named
  rcases bind_eq_error.mp stops with stops | ⟨⟨_, afterOpen⟩, opened, stops⟩
  · exact (symbol_suffix stops).trans within
  obtain ⟨gap, _, split⟩ := (symbol_eq_ok_iff (by decide)).mp opened
  have within : afterOpen <:+ text :=
    List.IsSuffix.trans ⟨gap ++ ['('], by rw [split]; simp⟩ within
  obtain ⟨inner, split, _⟩ := arguments_sound afterOpen
  have within : (arguments afterOpen).2 <:+ text :=
    List.IsSuffix.trans ⟨inner, split.symm⟩ within
  rcases bind_eq_error.mp stops with stops | ⟨_, _, stops⟩
  · exact (symbol_suffix stops).trans within
  · cases stops

theorem stoppedAt_append (front left : List Char) :
    Rejection.stoppedAt (front ++ left) left =
      .predicate (String.ofList (front ++ left)) (byteLength front) := by
  rw [Rejection.stoppedAt, Text.byteLength_append, Nat.add_sub_cancel]

/-- Reading a whole text stops where its reader does, or in front of what may not end
a text. -/
theorem readWhole_eq_error_iff {α : Type} {reader : Reader α}
    {skipEnd : List Char → List Char} {text left : List Char} :
    readWhole reader skipEnd text = .error left ↔
      reader text = .error left ∨
      ∃ value rest, reader text = .ok (value, rest) ∧ skipEnd rest = left ∧
        left ≠ [] := by
  rw [readWhole]
  cases reader text with
  | error left' => simp [bind, Except.bind]
  | ok result =>
      obtain ⟨value, rest⟩ := result
      cases ended : skipEnd rest with
      | nil => simp [bind, Except.bind, pure, Except.pure, ended]
      | cons c behind =>
          simp only [bind, Except.bind, ended, throw, throwThe, MonadExceptOf.throw,
            Except.error.injEq, reduceCtorEq, Except.ok.injEq, Prod.mk.injEq, false_or]
          constructor
          · rintro rfl
            exact ⟨value, rest, ⟨rfl, rfl⟩, ended, List.cons_ne_nil _ _⟩
          · rintro ⟨_, _, ⟨rfl, rfl⟩, same, _⟩
            exact ended.symm.trans same

/-- A text that begins with no predicate is rejected where reading stops, whatever
may end a text. -/
theorem readTrimmed_of_error {text left : List Char} (nonempty : text ≠ [])
    (stops : predicate text = .error left) (skipEnd : List Char → List Char) :
    readTrimmed skipEnd text = .error (.stoppedAt text left) := by
  rw [readTrimmed, if_neg nonempty, readWhole, stops]
  rfl

/-! ## Texts that begin with no predicate -/

def NoPredicate (text : List Char) : Prop :=
  ∀ front behind p, text = front ++ behind → ¬ Predicate.Written front p

theorem noPredicate_iff {text : List Char} :
    NoPredicate text ↔ ∃ left, predicate text = .error left := by
  constructor
  · intro none
    cases found : predicate text with
    | error left => exact ⟨left, rfl⟩
    | ok result =>
        obtain ⟨front, split, written⟩ := predicate_reads.sound found
        exact absurd written (none front result.2 result.1 split)
  · rintro ⟨left, stops⟩ front behind p rfl written
    rw [predicate_reads.complete written trivial] at stops
    cases stops

theorem WrittenName.spaced {gap text : List Char} {name : String}
    (spaces : Spaces gap) (named : WrittenName text name) :
    WrittenName (gap ++ text) name := by
  obtain ⟨spaces', isWord⟩ := named
  rw [← List.append_assoc]
  exact .mk (List.forall_mem_append.mpr ⟨spaces, spaces'⟩) isWord

end Statement

open Statement (Spaces)

theorem Predicate.Written.spaced {gap text : List Char} {p : Predicate}
    (spaces : Spaces gap) (written : Predicate.Written text p) :
    Predicate.Written (gap ++ text) p := by
  obtain ⟨named, spaces', arguments, spaces''⟩ := written
  rw [← List.append_assoc]
  exact .mk (named.spaced spaces) spaces' arguments spaces''

namespace Statement

theorem NoPredicate.behind {gap text : List Char} (none : NoPredicate (gap ++ text))
    (spaces : Spaces gap) : NoPredicate text := by
  rintro front behind p rfl written
  exact none (gap ++ front) behind p (List.append_assoc _ _ _).symm
    (written.spaced spaces)

theorem NoPredicate.of_isPrefix {text front : List Char} (none : NoPredicate text)
    (starts : front <+: text) : NoPredicate front := by
  obtain ⟨behind, rfl⟩ := starts
  rintro first second p rfl written
  exact none first (second ++ behind) p (List.append_assoc _ _ _) written

/-! ## Leading goals -/

/-- The goals at the start of a body, as many as there are, and what stands behind
them. -/
inductive LeadingGoals : List Char → List Predicate → List Char → Prop where
  | none {body : List Char} (noGoal : NoPredicate body) : LeadingGoals body [] body
  | some {taken rest : List Char} {goals : List Predicate}
      (isGoals : WrittenItems Predicate.Written taken goals)
      (noMore : ∀ gap behind, rest = gap ++ ',' :: behind → Spaces gap →
        NoPredicate behind) : LeadingGoals (taken ++ rest) goals rest

/-- Further items are read unless no comma with an item behind it follows. -/
theorem moreItems_eq_nil_iff {α : Type} {item : Reader α}
    {written : List Char → α → Prop} {follow : List Char → Prop}
    (reads : Reads item written follow) {rest : List Char} :
    moreItems item rest = ([], rest) ↔
      ∀ gap behind, rest = gap ++ ',' :: behind → Spaces gap →
        ∃ left, item behind = .error left := by
  constructor
  · rintro ends gap behind rfl spaces
    have comma : symbol [','] (gap ++ ',' :: behind) = .ok ((), behind) :=
      (symbol_eq_ok_iff (by decide)).mpr ⟨gap, spaces, rfl⟩
    cases found : item behind with
    | error left => exact ⟨left, rfl⟩
    | ok result =>
        have shorter := length_lt_of_comma reads comma found
        rw [moreItems, comma] at ends
        dsimp only at ends
        rw [found] at ends
        dsimp only at ends
        rw [if_pos shorter] at ends
        cases ends
  · intro noMore
    rw [moreItems]
    cases comma : symbol [','] rest with
    | error left => rfl
    | ok result =>
        obtain ⟨gap, spaces, split⟩ := (symbol_eq_ok_iff (by decide)).mp comma
        obtain ⟨left, stops⟩ := noMore gap _ split spaces
        dsimp only
        rw [List.nil_append] at stops
        rw [stops]

theorem moreItems_predicate_eq_nil_iff {rest : List Char} :
    moreItems predicate rest = ([], rest) ↔
      ∀ gap behind, rest = gap ++ ',' :: behind → Spaces gap →
        NoPredicate behind := by
  simp only [moreItems_eq_nil_iff predicate_reads, noPredicate_iff]

/-- Goals are read as far as a comma with a predicate behind it follows. -/
theorem bodyGoals_eq_ok_iff {body rest : List Char} {goals : List Predicate} :
    bodyGoals body = .ok (goals, rest) ↔
      ∃ taken, body = taken ++ rest ∧ WrittenItems Predicate.Written taken goals ∧
        moreItems predicate rest = ([], rest) := by
  constructor
  · intro found
    obtain ⟨⟨value, middle⟩, first, same⟩ := bind_eq_ok.mp found
    obtain ⟨taken, split, isItem⟩ := predicate_reads.sound first
    obtain ⟨later, split', more⟩ := moreItems_sound predicate_reads middle
    have ends := moreItems_moreItems predicate_reads middle
    cases same
    refine ⟨taken ++ later, ?_, .mk isItem more, ends⟩
    rw [List.append_assoc, ← split']
    exact split
  · rintro ⟨_, rfl, @⟨text, later, value, values, isItem, more⟩, ends⟩
    have others : moreItems predicate (later ++ rest) = _ :=
      moreItems_append predicate_reads more (fun _ _ _ => trivial) trivial
    rw [ends, List.append_nil] at others
    refine bind_eq_ok.mpr ⟨(value, later ++ rest), ?_, ?_⟩
    · rw [List.append_assoc]
      exact predicate_reads.complete isItem trivial
    · dsimp only
      rw [others]
      rfl

theorem bodyGoals_stops_iff {body : List Char} :
    (∃ left, bodyGoals body = .error left) ↔ NoPredicate body := by
  rw [noPredicate_iff]
  constructor
  · rintro ⟨left, stops⟩
    rcases bind_eq_error.mp stops with stops | ⟨_, _, stops⟩
    · exact ⟨left, stops⟩
    · cases stops
  · rintro ⟨left, stops⟩
    exact ⟨left, bind_eq_error.mpr (.inl stops)⟩

/-- The leading goals of a body are those that are read. -/
theorem leadingGoals_iff {body rest : List Char} {goals : List Predicate} :
    LeadingGoals body goals rest ↔
      bodyGoals body = .ok (goals, rest) ∨
        (∃ left, bodyGoals body = .error left) ∧ goals = [] ∧ rest = body := by
  rw [bodyGoals_eq_ok_iff, bodyGoals_stops_iff]
  constructor
  · rintro (noGoal | ⟨isGoals, noMore⟩)
    · exact .inr ⟨noGoal, rfl, rfl⟩
    · exact .inl ⟨_, rfl, isGoals, moreItems_predicate_eq_nil_iff.mpr noMore⟩
  · rintro (⟨taken, rfl, isGoals, ends⟩ | ⟨noGoal, rfl, rfl⟩)
    · exact .some isGoals (moreItems_predicate_eq_nil_iff.mp ends)
    · exact .none noGoal

theorem LeadingGoals.read {body rest : List Char} {goals : List Predicate}
    (leading : LeadingGoals body goals rest) (preceded : goals ≠ []) :
    bodyGoals body = .ok (goals, rest) := by
  rcases leadingGoals_iff.mp leading with found | ⟨_, alone, _⟩
  · exact found
  · exact absurd alone preceded

theorem LeadingGoals.unread {body rest : List Char}
    (leading : LeadingGoals body [] rest) :
    rest = body ∧ ∃ left, bodyGoals body = .error left := by
  rcases leadingGoals_iff.mp leading with found | ⟨stops, _, same⟩
  · obtain ⟨_, _, same⟩ := bind_eq_ok.mp found
    cases same
  · exact ⟨same, stops⟩

theorem exists_leadingGoals (body : List Char) :
    ∃ goals rest, LeadingGoals body goals rest := by
  cases found : bodyGoals body with
  | ok result => exact ⟨_, _, leadingGoals_iff.mpr (.inl found)⟩
  | error left => exact ⟨_, _, leadingGoals_iff.mpr (.inr ⟨⟨left, found⟩, rfl, rfl⟩)⟩

theorem LeadingGoals.suffix {body rest : List Char} {goals : List Predicate}
    (leading : LeadingGoals body goals rest) : rest <:+ body := by
  cases leading with
  | none noGoal => exact List.suffix_refl _
  | some isGoals noMore => exact List.suffix_append _ _

/-! ## Heads -/

/-- The text begins with the head of a rule and the sign `:-`, and the body is what
follows. -/
def Headed (text body : List Char) : Prop :=
  ∃ taken head, text = taken ++ body ∧ WrittenHead taken head

theorem headed_iff {text body : List Char} :
    Headed text body ↔ ∃ head, ruleHead text = .ok (head, body) := by
  constructor
  · rintro ⟨taken, head, rfl, isHead⟩
    exact ⟨head, ruleHead_reads.complete isHead trivial⟩
  · rintro ⟨head, found⟩
    obtain ⟨taken, split, isHead⟩ := ruleHead_reads.sound found
    exact ⟨taken, head, split, isHead⟩

theorem Headed.suffix {text body : List Char} (headed : Headed text body) :
    body <:+ text := by
  obtain ⟨taken, _, split, _⟩ := headed
  exact ⟨taken, split.symm⟩

/-- No sign stands in front of the head of a rule. -/
theorem Headed.unsigned {text body : List Char} (headed : Headed text body) :
    ¬ [':', '-'] <+: text := by
  obtain ⟨_, head, rfl, front, gap, rfl, conclusion, _⟩ := headed
  obtain @⟨first, rest, either⟩ := conclusion.begins
  rintro ⟨behind, same⟩
  simp only [List.cons_append, List.cons.injEq] at same
  rw [← same.1] at either
  revert either
  decide

end Statement

end HornLogic
