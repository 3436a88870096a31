import HornLogic.Proofs.Statement.Tokens

/-!
# Reading statements

The readers for lists, predicates and clauses take from a text what is written
so, and take back what is written so wherever the text behind it cannot be
mistaken for more.  A list is not read on when no comma follows, and a fact
is not taken for the head of a rule when no sign `:-` follows.
-/

namespace HornLogic.Statement

open Text (skipSpace skipSpace_cons isSpace)

/-! ## Lists -/

/-- What follows, behind space, does not start with a given character. -/
def NotBefore (c : Char) (rest : List Char) : Prop :=
  ∀ tail, skipSpace rest ≠ c :: tail

theorem symbol_error {c : Char} (solid : isSpace c = false) (sign : List Char)
    {rest : List Char} (other : NotBefore c rest) :
    ∃ left, symbol (c :: sign) rest = .error left := by
  cases found : symbol (c :: sign) rest with
  | error left => exact ⟨left, rfl⟩
  | ok result =>
      obtain ⟨gap, spaces, split⟩ := (symbol_eq_ok_iff solid).mp found
      refine absurd ?_ (other (sign ++ result.2))
      rw [split, skipSpace_append spaces, skipSpace_cons solid]

section Items

variable {α : Type} {item : Reader α} {written : List Char → α → Prop}
  {follow : List Char → Prop}

/-- What may follow an item may follow it behind further items, if a comma
may. -/
theorem WrittenMore.follows {taken rest : List Char} {values : List α}
    (more : WrittenMore written taken values)
    (separated : ∀ gap tail, Spaces gap → follow (gap ++ ',' :: tail))
    (last : follow rest) : follow (taken ++ rest) := by
  cases more with
  | nil => exact last
  | cons spaces _ _ =>
      rw [List.append_assoc]
      exact separated _ _ spaces

variable (reads : Reads item written follow)
include reads

/-- The text behind a comma and an item is shorter. -/
theorem length_lt_of_comma {text afterComma rest : List Char} {value : α}
    (comma : symbol [','] text = .ok ((), afterComma))
    (found : item afterComma = .ok (value, rest)) : rest.length < text.length := by
  obtain ⟨gap, _, start⟩ := (symbol_eq_ok_iff (by decide)).mp comma
  obtain ⟨first, split, _⟩ := reads.sound found
  rw [start, split]
  simp only [List.length_append, List.length_cons, List.length_nil]
  omega

/-- Further items are taken, each behind a comma. -/
theorem moreItems_sound (text : List Char) :
    ∃ taken, text = taken ++ (moreItems item text).2 ∧
      WrittenMore written taken (moreItems item text).1 := by
  fun_induction moreItems item text with
  | case1 text _ _ => exact ⟨[], rfl, .nil⟩
  | case2 text _ _ _ _ => exact ⟨[], rfl, .nil⟩
  | case3 text afterComma comma value middle found _ values rest others ih =>
      obtain ⟨gap, spaces, start⟩ := (symbol_eq_ok_iff (by decide)).mp comma
      obtain ⟨first, split, isItem⟩ := reads.sound found
      obtain ⟨later, split', more⟩ := ih
      rw [others] at split' more
      refine ⟨gap ++ ',' :: (first ++ later), ?_, .cons spaces isItem more⟩
      rw [start, List.nil_append, split, split']
      simp
  | case4 text afterComma comma value rest found stuck =>
      exact absurd (length_lt_of_comma reads comma found) stuck

/-- Further items are taken back, and then those that stand behind them. -/
theorem moreItems_append {taken rest : List Char} {values : List α}
    (more : WrittenMore written taken values)
    (separated : ∀ gap tail, Spaces gap → follow (gap ++ ',' :: tail))
    (last : follow rest) :
    moreItems item (taken ++ rest) =
      (values ++ (moreItems item rest).1, (moreItems item rest).2) := by
  induction more with
  | nil => rfl
  | @cons gap text later value values spaces isItem more ih =>
      have follows := more.follows separated last
      have comma : symbol [','] (gap ++ ',' :: (text ++ later) ++ rest) =
          .ok ((), text ++ (later ++ rest)) :=
        (symbol_eq_ok_iff (by decide)).mpr ⟨gap, spaces, by simp⟩
      have shorter : (later ++ rest).length <
          (gap ++ ',' :: (text ++ later) ++ rest).length := by
        simp only [List.length_append, List.length_cons]
        omega
      rw [moreItems, comma]
      dsimp only
      rw [reads.complete isItem follows]
      dsimp only
      rw [if_pos shorter, ih, List.cons_append]

/-- Further items are taken back up to where no comma follows. -/
theorem moreItems_complete {taken rest : List Char} {values : List α}
    (more : WrittenMore written taken values)
    (separated : ∀ gap tail, Spaces gap → follow (gap ++ ',' :: tail))
    (last : follow rest) (ends : NotBefore ',' rest) :
    moreItems item (taken ++ rest) = (values, rest) := by
  obtain ⟨left, stops⟩ := symbol_error (by decide) [] ends
  have nothing : moreItems item rest = ([], rest) := by rw [moreItems, stops]
  rw [moreItems_append reads more separated last, nothing, List.append_nil]

theorem moreItems_moreItems (text : List Char) :
    moreItems item (moreItems item text).2 = ([], (moreItems item text).2) := by
  fun_induction moreItems item text with
  | case1 text _ stops => rw [moreItems, stops]
  | case2 text _ comma _ stops => rw [moreItems, comma]; dsimp only; rw [stops]
  | case3 text afterComma comma value middle found _ values rest others ih =>
      rw [others] at ih
      exact ih
  | case4 text afterComma comma value rest found stuck =>
      exact absurd (length_lt_of_comma reads comma found) stuck

/-- Items are taken back where neither an item nor a comma follows. -/
theorem items_reads
    (separated : ∀ gap tail, Spaces gap → follow (gap ++ ',' :: tail)) :
    Reads (items item) (WrittenItems written)
      fun rest => follow rest ∧ NotBefore ',' rest where
  sound {text values rest} found := by
    obtain ⟨⟨value, middle⟩, first, same⟩ := bind_eq_ok.mp found
    obtain ⟨taken, split, isItem⟩ := reads.sound first
    obtain ⟨later, split', more⟩ := moreItems_sound reads middle
    cases same
    refine ⟨taken ++ later, ?_, .mk isItem more⟩
    rw [List.append_assoc, ← split']
    exact split
  complete {taken values rest} isItems ends := by
    obtain @⟨text, later, value, values, isItem, more⟩ := isItems
    rw [List.append_assoc]
    refine bind_eq_ok.mpr
      ⟨_, reads.complete isItem (more.follows separated ends.1), ?_⟩
    have others := moreItems_complete reads more separated ends.1 ends.2
    dsimp only
    rw [others]
    rfl

end Items

/-! ## Predicates -/

/-- Behind space no character of a word follows, but another one. -/
theorem unextended_gap {c : Char} (other : ¬ WordChar c) {gap : List Char}
    (spaces : Spaces gap) (tail : List Char) :
    Unextended (gap ++ c :: tail) := by
  intro first rest starts letter
  cases gap with
  | nil =>
      cases starts
      exact other letter
  | cons blank gap =>
      cases starts
      have isSpace := spaces_iff.mp spaces first List.mem_cons_self
      rw [isSpace_of_wordChar letter] at isSpace
      cases isSpace

/-- Behind space one character follows and no other. -/
theorem notBefore_gap {c other : Char} (solid : isSpace c = false)
    (differ : c ≠ other) {gap : List Char} (spaces : Spaces gap)
    (tail : List Char) : NotBefore other (gap ++ c :: tail) := by
  intro rest starts
  rw [skipSpace_append spaces, skipSpace_cons solid] at starts
  exact differ (List.cons.inj starts).1

theorem terms_reads :
    Reads (items term) (WrittenItems Term.Written)
      fun rest => Unextended rest ∧ NotBefore ',' rest :=
  items_reads term_reads fun _ tail spaces =>
    unextended_gap (by decide) spaces tail

/-- No argument is read in front of the closing parenthesis. -/
theorem terms_error {gap : List Char} (spaces : Spaces gap)
    (rest : List Char) :
    items term (gap ++ ')' :: rest) = .error (')' :: rest) := by
  have stops : identifier (gap ++ ')' :: rest) = .error (')' :: rest) := by
    rw [identifier, skipSpace_append spaces, skipSpace_cons (by decide)]
    rfl
  rw [items, term, stops]
  rfl

theorem arguments_sound (text : List Char) :
    ∃ taken, text = taken ++ (arguments text).2 ∧
      WrittenArguments taken (arguments text).1 := by
  rw [arguments]
  split
  · rename_i result found
    obtain ⟨taken, split, isItems⟩ := terms_reads.sound found
    exact ⟨taken, split, .some isItems⟩
  · exact ⟨[], rfl, .none⟩

theorem arguments_complete {taken gap : List Char} {args : List Term}
    (written : WrittenArguments taken args) (spaces : Spaces gap)
    (rest : List Char) :
    arguments (taken ++ (gap ++ ')' :: rest)) = (args, gap ++ ')' :: rest) := by
  rw [arguments]
  cases written with
  | none => rw [List.nil_append, terms_error spaces]
  | some isItems =>
      rw [terms_reads.complete isItems
        ⟨unextended_gap (by decide) spaces rest,
          notBefore_gap (by decide) (by decide) spaces rest⟩]

theorem predicate_reads :
    Reads predicate Predicate.Written fun _ => True where
  sound {text p rest} found := by
    obtain ⟨⟨name, afterName⟩, named, found⟩ := bind_eq_ok.mp found
    obtain ⟨⟨_, afterOpen⟩, opened, found⟩ := bind_eq_ok.mp found
    obtain ⟨inner, split', isArguments⟩ := arguments_sound afterOpen
    dsimp only at found
    generalize arguments afterOpen = result at found split' isArguments
    obtain ⟨⟨_, afterClose⟩, closed, same⟩ := bind_eq_ok.mp found
    cases same
    obtain ⟨head, split, isName⟩ := identifier_reads.sound named
    obtain ⟨gap, spaces, open_⟩ := (symbol_eq_ok_iff (by decide)).mp opened
    obtain ⟨gap', spaces', close⟩ := (symbol_eq_ok_iff (by decide)).mp closed
    refine ⟨_, ?_, .mk isName spaces isArguments spaces'⟩
    rw [split, open_, List.nil_append, split', close]
    simp
  complete {taken p rest} written _ := by
    obtain @⟨head, gap, inner, gap', name, args, isName, spaces, isArguments,
      spaces'⟩ := written
    have whole : head ++ (gap ++ '(' :: (inner ++ (gap' ++ [')']))) ++ rest =
        head ++ (gap ++ '(' :: (inner ++ (gap' ++ ')' :: rest))) := by simp
    have named := identifier_reads.complete isName
      (unextended_gap (by decide : ¬ WordChar '(') spaces
        (inner ++ (gap' ++ ')' :: rest)))
    have opened : symbol ['('] (gap ++ '(' :: (inner ++ (gap' ++ ')' :: rest))) =
        .ok ((), inner ++ (gap' ++ ')' :: rest)) :=
      (symbol_eq_ok_iff (by decide)).mpr ⟨gap, spaces, rfl⟩
    have closed : symbol [')'] (gap' ++ ')' :: rest) = .ok ((), rest) :=
      (symbol_eq_ok_iff (by decide)).mpr ⟨gap', spaces', rfl⟩
    rw [whole]
    refine bind_eq_ok.mpr ⟨_, named, bind_eq_ok.mpr ⟨_, opened, ?_⟩⟩
    dsimp only
    rw [arguments_complete isArguments spaces' rest]
    exact bind_eq_ok.mpr ⟨_, closed, rfl⟩

/-! ## Clauses -/

theorem bodyGoals_reads :
    Reads bodyGoals (WrittenItems Predicate.Written)
      fun rest => True ∧ NotBefore ',' rest :=
  items_reads predicate_reads fun _ _ _ => trivial

def WrittenHead (text : List Char) (head : Predicate) : Prop :=
  ∃ front gap, text = front ++ (gap ++ [':', '-']) ∧
    Predicate.Written front head ∧ Spaces gap

theorem ruleHead_reads : Reads ruleHead WrittenHead fun _ => True where
  sound {text head rest} found := by
    obtain ⟨⟨_, afterPredicate⟩, first, found⟩ := bind_eq_ok.mp found
    obtain ⟨⟨_, afterSign⟩, sign, same⟩ := bind_eq_ok.mp found
    cases same
    obtain ⟨front, split, conclusion⟩ := predicate_reads.sound first
    obtain ⟨gap, spaces, split'⟩ := (symbol_eq_ok_iff (by decide)).mp sign
    refine ⟨_, ?_, front, gap, rfl, conclusion, spaces⟩
    rw [split, split']
    simp
  complete {taken head rest} written _ := by
    obtain ⟨front, gap, rfl, conclusion, spaces⟩ := written
    have sign : symbol [':', '-'] (gap ++ [':', '-'] ++ rest) = .ok ((), rest) :=
      (symbol_eq_ok_iff (by decide)).mpr ⟨gap, spaces, List.append_assoc _ _ _⟩
    rw [List.append_assoc]
    exact bind_eq_ok.mpr ⟨_, predicate_reads.complete conclusion trivial,
      bind_eq_ok.mpr ⟨_, sign, rfl⟩⟩

theorem rule_reads :
    Reads rule (fun text c => Clause.Written text c ∧ c.isFact = false)
      (NotBefore ',') where
  sound {text c rest} found := by
    obtain ⟨⟨head, afterHead⟩, concluded, found⟩ := bind_eq_ok.mp found
    obtain ⟨⟨body, afterBody⟩, goals, same⟩ := bind_eq_ok.mp found
    cases same
    obtain ⟨taken, split, front, gap, rfl, conclusion, spaces⟩ :=
      ruleHead_reads.sound concluded
    obtain ⟨later, split', isGoals⟩ := bodyGoals_reads.sound goals
    refine ⟨_, ?_, .rule conclusion spaces isGoals, rfl⟩
    rw [split, split']
    simp
  complete {taken c rest} written ends := by
    obtain ⟨written, isRule⟩ := written
    cases written with
    | fact alone => cases isRule
    | @rule front gap goals head body conclusion spaces isGoals =>
        have whole : front ++ (gap ++ ':' :: '-' :: goals) ++ rest =
            front ++ (gap ++ [':', '-']) ++ (goals ++ rest) := by simp
        have isHead : WrittenHead (front ++ (gap ++ [':', '-'])) head :=
          ⟨front, gap, rfl, conclusion, spaces⟩
        rw [whole]
        exact bind_eq_ok.mpr ⟨_, ruleHead_reads.complete isHead trivial,
          bind_eq_ok.mpr
            ⟨_, bodyGoals_reads.complete isGoals ⟨trivial, ends⟩, rfl⟩⟩

theorem fact_reads :
    Reads fact (fun text c => Clause.Written text c ∧ c.isFact = true)
      fun _ => True where
  sound {text c rest} found := by
    obtain ⟨⟨p, left⟩, first, same⟩ := bind_eq_ok.mp found
    cases same
    obtain ⟨taken, split, alone⟩ := predicate_reads.sound first
    exact ⟨taken, split, .fact alone, rfl⟩
  complete {taken c rest} written _ := by
    obtain ⟨written, isFact⟩ := written
    cases written with
    | fact alone =>
        exact bind_eq_ok.mpr ⟨_, predicate_reads.complete alone trivial, rfl⟩
    | rule _ _ _ => cases isFact

/-- A predicate with no sign `:-` behind it is not the head of a rule. -/
theorem rule_error {taken rest : List Char} {p : Predicate}
    (alone : Predicate.Written taken p) (other : NotBefore ':' rest) :
    ∃ left, rule (taken ++ rest) = .error left := by
  obtain ⟨left, stops⟩ := symbol_error (by decide) ['-'] other
  refine ⟨left, ?_⟩
  rw [rule, ruleHead, predicate_reads.complete alone trivial]
  change (symbol [':', '-'] rest >>= _) >>= _ = _
  rw [stops]
  rfl

/-- Reading a rule first keeps no fact from being read. -/
theorem clause_reads :
    Reads clause Clause.Written
      fun rest => NotBefore ',' rest ∧ NotBefore ':' rest where
  sound {text c rest} found := by
    rw [clause] at found
    split at found
    · rename_i result isRule
      cases found
      obtain ⟨taken, split, written, _⟩ := rule_reads.sound isRule
      exact ⟨taken, split, written⟩
    · obtain ⟨taken, split, written, _⟩ := fact_reads.sound found
      exact ⟨taken, split, written⟩
  complete {taken c rest} written ends := by
    rw [clause]
    cases kind : c.isFact with
    | false => rw [rule_reads.complete ⟨written, kind⟩ ends.1]
    | true =>
        cases written with
        | fact alone =>
            obtain ⟨left, stops⟩ := rule_error alone ends.2
            rw [stops]
            exact fact_reads.complete ⟨.fact alone, kind⟩ trivial
        | rule _ _ _ => cases kind

/-! ## Whole statements -/

/-- The period and the space around it are dropped exactly from the end of a
statement. -/
theorem skipPeriod_eq_nil_iff {rest : List Char} :
    skipPeriod rest = [] ↔ Ending rest := by
  constructor
  · intro dropped
    obtain ⟨gap, spaces, split⟩ := exists_gap rest
    rw [skipPeriod] at dropped
    split at dropped
    · rename_i behind period
      rw [split, period]
      exact .period spaces (skipSpace_eq_nil_iff.mp dropped)
    · exact .plain (skipSpace_eq_nil_iff.mp dropped)
  · rintro (spaces | ⟨spaces, spaces'⟩)
    · rw [skipPeriod, skipSpace_eq_nil_iff.mpr spaces]
    · rw [skipPeriod, skipSpace_append spaces, skipSpace_cons (by decide)]
      exact skipSpace_eq_nil_iff.mpr spaces'

/-- Nothing but a period stands at the end of a statement. -/
theorem Ending.notBefore {c : Char} (other : '.' ≠ c) {rest : List Char}
    (ending : Ending rest) : NotBefore c rest := by
  cases ending with
  | plain spaces =>
      intro tail starts
      rw [skipSpace_eq_nil_iff.mpr spaces] at starts
      cases starts
  | period spaces _ => exact notBefore_gap (by decide) other spaces _

/-- A whole text is read exactly as it is written. -/
theorem readWhole_eq_ok_iff {α : Type} {reader : Reader α}
    {written : List Char → α → Prop} {follow : List Char → Prop}
    (reads : Reads reader written follow)
    (ends : ∀ rest, Ending rest → follow rest)
    {text : List Char} {value : α} :
    readWhole reader skipPeriod text = .ok value ↔ Whole written text value := by
  constructor
  · intro found
    obtain ⟨⟨value, rest⟩, first, ended⟩ := bind_eq_ok.mp found
    dsimp only at ended
    split at ended
    · rename_i dropped
      cases ended
      obtain ⟨taken, split, isWritten⟩ := reads.sound first
      exact ⟨taken, rest, split, isWritten, skipPeriod_eq_nil_iff.mp dropped⟩
    · cases ended
  · rintro ⟨taken, rest, rfl, isWritten, ending⟩
    refine bind_eq_ok.mpr
      ⟨_, reads.complete isWritten (ends rest ending), ?_⟩
    dsimp only
    rw [skipPeriod_eq_nil_iff.mpr ending]
    rfl

end HornLogic.Statement
