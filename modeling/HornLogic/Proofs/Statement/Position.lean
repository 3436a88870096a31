import HornLogic.Proofs.Statement.Absent

/-!
# Positions of rejections

A text that is no predicate is rejected at its first flaw.  What stands in front of
the position can be completed to a predicate, and the next character makes that
impossible.  A comma behind an argument is the one exception: it could be followed by
an argument, and is reported because it is not.
-/

namespace HornLogic

namespace Statement

/-! ## What can be completed -/

/-- Something can follow that makes the text a predicate, with or without a period. -/
def Completable (front : List Char) : Prop :=
  ∃ behind p, Whole Predicate.Written (front ++ behind) p

/-- A predicate up to one of its arguments and the space behind it. -/
inductive AfterArgument : List Char → Prop where
  | mk {head gap inner gap' : List Char} {name : String} {args : List Term}
      (named : WrittenName head name) (spaces : Spaces gap)
      (items : WrittenItems Term.Written inner args) (spaces' : Spaces gap') :
      AfterArgument (head ++ (gap ++ '(' :: (inner ++ gap')))

/-! ## Where reading stops -/

/-- What stands in front of the place where reading stops, and what is left behind it,
by the token that is not there. -/
inductive Stop : List Char → List Char → Prop where
  | name {gap left : List Char} (spaces : Spaces gap)
      (blocked : Blocked WordChar left) : Stop gap left
  | opening {head gap left : List Char} {name : String}
      (named : WrittenName head name) (unextended : Unextended (gap ++ left))
      (spaces : Spaces gap) (blocked : Blocked (· = '(') left) : Stop (head ++ gap) left
  | firstArgument {head gap gap' left : List Char} {name : String}
      (named : WrittenName head name) (spaces : Spaces gap) (spaces' : Spaces gap')
      (blocked : Blocked (fun c => WordChar c ∨ c = ')') left) :
      Stop (head ++ (gap ++ '(' :: gap')) left
  | closing {head gap inner gap' left : List Char} {name : String} {args : List Term}
      (named : WrittenName head name) (spaces : Spaces gap)
      (items : WrittenItems Term.Written inner args)
      (unextended : Unextended (gap' ++ left)) (spaces' : Spaces gap')
      (blocked : Blocked (fun c => c = ',' ∨ c = ')') left) :
      Stop (head ++ (gap ++ '(' :: (inner ++ gap'))) left
  | comma {front behind : List Char} (after : AfterArgument front)
      (none : NoArgument behind) : Stop front (',' :: behind)
  | period {taken gap left : List Char} {p : Predicate}
      (written : Predicate.Written taken p) (spaces : Spaces gap) (more : left ≠ [])
      (blocked : Blocked (· = '.') left) : Stop (taken ++ gap) left
  | nothing {taken gap gap' left : List Char} {p : Predicate}
      (written : Predicate.Written taken p) (spaces : Spaces gap)
      (spaces' : Spaces gap') (more : left ≠ []) (blocked : Blocked (fun _ => False) left) :
      Stop (taken ++ (gap ++ '.' :: gap')) left

/-- Reading a predicate stops at its name, at the parenthesis behind it, or at the one
behind the arguments. -/
theorem predicate_eq_error_iff {text left : List Char} :
    predicate text = .error left ↔
      identifier text = .error left ∨
      (∃ name rest, identifier text = .ok (name, rest) ∧
        symbol ['('] rest = .error left) ∨
      ∃ name rest inside, identifier text = .ok (name, rest) ∧
        symbol ['('] rest = .ok ((), inside) ∧
        symbol [')'] (arguments inside).2 = .error left := by
  rw [predicate]
  cases named : identifier text with
  | error left' => simp [bind, Except.bind]
  | ok result =>
      obtain ⟨name, rest⟩ := result
      cases opened : symbol ['('] rest with
      | error left' => simp [bind, Except.bind, opened]
      | ok result' =>
          obtain ⟨_, inside⟩ := result'
          cases closed : symbol [')'] (arguments inside).2 <;>
            simp [bind, Except.bind, pure, Except.pure, opened, closed]

/-- Reading a predicate stops where one of its tokens is not there. -/
theorem stop_of_predicate {text left : List Char} (stops : predicate text = .error left) :
    ∃ front, text = front ++ left ∧ Stop front left := by
  rcases predicate_eq_error_iff.mp stops with
    unnamed | ⟨name, rest, isName, unopened⟩ | ⟨name, rest, inside, isName, opened, unclosed⟩
  · obtain ⟨gap, split, spaces, blocked⟩ := identifier_eq_error_iff.mp unnamed
    exact ⟨gap, split, .name spaces blocked⟩
  · obtain ⟨head, split, named⟩ := identifier_reads.sound isName
    obtain ⟨gap, rfl, spaces, blocked⟩ := symbol_eq_error_iff.mp unopened
    refine ⟨head ++ gap, by rw [split, List.append_assoc], ?_⟩
    exact .opening named (unextended_of_identifier isName) spaces blocked
  -- the parenthesis is open, and what may come next depends on the arguments read so far
  obtain ⟨head, split, named⟩ := identifier_reads.sound isName
  obtain ⟨gap, spaces, opening⟩ := (symbol_eq_ok_iff (by decide)).mp opened
  obtain ⟨gap', closing, spaces', blocked⟩ := symbol_eq_error_iff.mp unclosed
  rcases arguments_cases inside with
    ⟨none, found⟩ | ⟨inner, rest', args, whole, items, unextended, ends, found⟩
  · rw [found] at closing
    obtain ⟨_, missing⟩ := noArgument_iff.mp none
    obtain ⟨gap'', closing', spaces'', unread⟩ := term_eq_error_iff.mp missing
    obtain rfl := blocked.unique spaces' unread spaces'' (closing.symm.trans closing')
    dsimp only at closing
    refine ⟨head ++ (gap ++ '(' :: gap'), by simp [split, opening, closing], ?_⟩
    refine .firstArgument named spaces spaces' fun c first => ⟨(blocked c first).1, ?_⟩
    rintro (letter | closes)
    · exact (unread c first).2 letter
    · exact (blocked c first).2 closes
  · rw [found] at closing
    dsimp only at closing
    refine ⟨head ++ (gap ++ '(' :: (inner ++ gap')),
      by simp [split, opening, whole, closing], ?_⟩
    rw [closing] at unextended ends
    -- a comma is left only where no argument stands behind it
    by_cases comma : left.head? = some ','
    · obtain ⟨behind, rfl⟩ := List.head?_eq_some_iff.mp comma
      refine .comma (.mk named spaces items spaces') (noArgument_iff.mpr ?_)
      exact (moreItems_eq_nil_iff term_reads).mp ends gap' behind rfl spaces'
    · refine .closing named spaces items unextended spaces' fun c first =>
        ⟨(blocked c first).1, ?_⟩
      rintro (rfl | closes)
      · exact comma first
      · exact (blocked c first).2 closes

/-- Reading a whole text stops where a token of it is not there. -/
theorem stop_of_readWhole {text left : List Char}
    (stops : readWhole predicate skipPeriod text = .error left) :
    ∃ front, text = front ++ left ∧ Stop front left := by
  rcases readWhole_eq_error_iff.mp stops with stops | ⟨p, rest, found, rfl, more⟩
  · exact stop_of_predicate stops
  obtain ⟨taken, rfl, written⟩ := predicate_reads.sound found
  rcases skipPeriod_cases rest with
    ⟨gap, spaces, split, blocked⟩ | ⟨gap, gap', spaces, spaces', split, blocked⟩
  · exact ⟨taken ++ gap, by rw [List.append_assoc, ← split],
      .period written spaces more blocked⟩
  · refine ⟨taken ++ (gap ++ '.' :: gap'), ?_, .nothing written spaces spaces' more blocked⟩
    rw [List.append_assoc, List.append_assoc, List.cons_append, ← split]

theorem blocked_comma (behind : List Char) : Blocked (· ≠ ',') (',' :: behind) := by
  rintro c ⟨rfl⟩
  exact ⟨rfl, not_not.mpr rfl⟩

theorem readWhole_unclosed {head gap rest left : List Char} {name : String}
    (named : WrittenName head name) (spaces : Spaces gap)
    (unclosed : symbol [')'] (arguments rest).2 = .error left) :
    readWhole predicate skipPeriod (head ++ (gap ++ '(' :: rest)) = .error left := by
  have isName := identifier_reads.complete named
    (unextended_gap (by decide : ¬ WordChar '(') spaces rest)
  have opened : symbol ['('] (gap ++ '(' :: rest) = .ok ((), rest) :=
    (symbol_eq_ok_iff (by decide)).mpr ⟨gap, spaces, rfl⟩
  exact readWhole_eq_error_iff.mpr (.inl (predicate_eq_error_iff.mpr
    (.inr (.inr ⟨name, _, rest, isName, opened, unclosed⟩))))

/-- Arguments behind which neither a comma with an argument nor a parenthesis comes. -/
theorem readWhole_unclosed_items {head gap inner gap' left : List Char} {name : String}
    {args : List Term} (named : WrittenName head name) (spaces : Spaces gap)
    (items : WrittenItems Term.Written inner args) (spaces' : Spaces gap')
    (unextended : Unextended (gap' ++ left))
    (noMore : ∀ behind, left = ',' :: behind → NoArgument behind)
    (blocked : Blocked (· = ')') left) :
    readWhole predicate skipPeriod (head ++ (gap ++ '(' :: (inner ++ gap')) ++ left) =
      .error left := by
  have ends : moreItems term (gap' ++ left) = ([], gap' ++ left) := by
    refine (moreItems_eq_nil_iff term_reads).mpr fun gap'' behind split spaces'' => ?_
    refine noArgument_iff.mp (noMore behind ?_)
    exact blocked.unique spaces' (blocked_comma behind) spaces'' split
  have unclosed : symbol [')'] (arguments (inner ++ (gap' ++ left))).2 = .error left := by
    rw [arguments_append items unextended ends]
    exact symbol_eq_error_iff.mpr ⟨gap', rfl, spaces', blocked⟩
  simpa using readWhole_unclosed named spaces unclosed

namespace Stop

variable {front left : List Char}

/-- Reading stops there. -/
theorem readWhole (stop : Stop front left) :
    readWhole predicate skipPeriod (front ++ left) = .error left := by
  cases stop with
  | name spaces blocked =>
      refine readWhole_eq_error_iff.mpr (.inl (predicate_eq_error_iff.mpr (.inl ?_)))
      exact identifier_eq_error_iff.mpr ⟨_, rfl, spaces, blocked⟩
  | @opening head gap _ name named unextended spaces blocked =>
      have isName := identifier_reads.complete named unextended
      rw [← List.append_assoc] at isName
      refine readWhole_eq_error_iff.mpr (.inl (predicate_eq_error_iff.mpr
        (.inr (.inl ⟨name, _, isName, ?_⟩))))
      exact symbol_eq_error_iff.mpr ⟨gap, rfl, spaces, blocked⟩
  | @firstArgument head gap gap' _ name named spaces spaces' blocked =>
      have none : NoArgument (gap' ++ left) := noArgument_iff.mpr ⟨left,
        term_eq_error_iff.mpr ⟨gap', rfl, spaces', blocked.imp fun _ => .inl⟩⟩
      have unclosed : symbol [')'] (arguments (gap' ++ left)).2 = .error left := by
        rw [arguments_of_noArgument none]
        exact symbol_eq_error_iff.mpr ⟨gap', rfl, spaces', blocked.imp fun _ => .inr⟩
      simpa using readWhole_unclosed named spaces unclosed
  | closing named spaces items unextended spaces' blocked =>
      refine readWhole_unclosed_items named spaces items spaces' unextended ?_
        (blocked.imp fun _ => .inr)
      rintro behind rfl
      exact absurd (.inl rfl) (blocked ',' rfl).2
  | @comma _ behind after none =>
      obtain ⟨named, spaces, items, spaces'⟩ := after
      refine readWhole_unclosed_items named spaces items spaces'
        (unextended_gap (by decide) spaces' behind) ?_
        ((blocked_comma behind).imp ?_)
      · rintro _ ⟨rfl⟩
        exact none
      · rintro c rfl
        decide
  | @period taken gap _ p written spaces more blocked =>
      refine readWhole_eq_error_iff.mpr (.inr ⟨p, gap ++ left, ?_,
        skipPeriod_of_blocked spaces blocked, more⟩)
      rw [List.append_assoc]
      exact predicate_reads.complete written trivial
  | @nothing taken gap gap' _ p written spaces spaces' more blocked =>
      refine readWhole_eq_error_iff.mpr (.inr ⟨p, gap ++ '.' :: (gap' ++ left), ?_,
        skipPeriod_period spaces spaces' blocked, more⟩)
      rw [List.append_assoc, List.append_assoc, List.cons_append]
      exact predicate_reads.complete written trivial

end Stop

/-! ## The first flaw -/

theorem Unextended.congr {gap behind behind' : List Char} {c : Char}
    (unextended : Unextended (gap ++ c :: behind)) :
    Unextended (gap ++ c :: behind') := by
  intro first tail starts
  cases gap with
  | nil =>
      cases starts
      exact unextended _ _ rfl
  | cons blank gap =>
      cases starts
      exact unextended _ _ rfl

theorem Completable.of_written {front : List Char} (behind : List Char) {p : Predicate}
    (written : Predicate.Written (front ++ behind) p) : Completable front :=
  ⟨behind, p, front ++ behind, [], (List.append_nil _).symm, written, .plain spaces_nil⟩

theorem completable_of_arguments {head gap inner gap' : List Char} {name : String}
    {args : List Term} (named : WrittenName head name) (spaces : Spaces gap)
    (arguments : WrittenArguments inner args) (spaces' : Spaces gap') :
    Completable (head ++ (gap ++ '(' :: (inner ++ gap'))) := by
  have written := Predicate.Written.mk named spaces arguments spaces'
  exact .of_written [')'] (by simpa using written)

theorem AfterArgument.completable {front : List Char} (after : AfterArgument front) :
    Completable front := by
  obtain ⟨named, spaces, items, spaces'⟩ := after
  exact completable_of_arguments named spaces (.some items) spaces'

namespace Stop

variable {front left behind : List Char} {c : Char}

/-- Up to there the text can be completed. -/
theorem completable (stop : Stop front left) : Completable front := by
  cases stop with
  | name spaces blocked =>
      have named : WrittenName (front ++ ['a']) "a" := .mk spaces (word_singleton (by decide))
      have written := Predicate.Written.mk named spaces_nil .none spaces_nil
      exact .of_written ['a', '(', ')'] (by simpa using written)
  | @opening head gap _ name named unextended spaces blocked =>
      have written := Predicate.Written.mk named spaces .none spaces_nil
      exact .of_written ['(', ')'] (by simpa using written)
  | firstArgument named spaces spaces' blocked =>
      exact completable_of_arguments named spaces .none spaces'
  | closing named spaces items unextended spaces' blocked =>
      exact completable_of_arguments named spaces (.some items) spaces'
  | comma after none => exact after.completable
  | @period taken gap _ p written spaces more blocked =>
      exact ⟨[], p, taken, gap, List.append_nil _, written, .plain spaces⟩
  | @nothing taken gap gap' _ p written spaces spaces' more blocked =>
      exact ⟨[], p, taken, _, List.append_nil _, written, .period spaces spaces'⟩

/-- Reading stops there whatever stands behind the next character, unless this is a
comma without an argument behind it. -/
theorem again (stop : Stop front (c :: behind)) :
    (∀ behind', Stop front (c :: behind')) ∨
      c = ',' ∧ AfterArgument front ∧ NoArgument behind := by
  cases stop with
  | name spaces blocked => exact .inl fun _ => .name spaces blocked.congr
  | opening named unextended spaces blocked =>
      exact .inl fun _ => .opening named unextended.congr spaces blocked.congr
  | firstArgument named spaces spaces' blocked =>
      exact .inl fun _ => .firstArgument named spaces spaces' blocked.congr
  | closing named spaces items unextended spaces' blocked =>
      exact .inl fun _ =>
        .closing named spaces items unextended.congr spaces' blocked.congr
  | comma after none => exact .inr ⟨rfl, after, none⟩
  | period written spaces more blocked =>
      exact .inl fun _ => .period written spaces (List.cons_ne_nil _ _) blocked.congr
  | nothing written spaces spaces' more blocked =>
      exact .inl fun _ =>
        .nothing written spaces spaces' (List.cons_ne_nil _ _) blocked.congr

/-- With the next character the text can no longer be completed, unless this is a comma
without an argument behind it. -/
theorem next (stop : Stop front (c :: behind)) :
    ¬ Completable (front ++ [c]) ∨
      c = ',' ∧ AfterArgument front ∧ NoArgument behind := by
  refine stop.again.imp_left ?_
  rintro stops ⟨more, p, whole⟩
  have unread := (stops more).readWhole
  rw [List.append_assoc, List.singleton_append] at whole
  rw [readWhole_predicate_iff.mpr whole] at unread
  cases unread

end Stop

/-- A position in a rejected text, and what stands in front of it and behind it.  The
front is what could still have become a predicate. -/
structure FirstFlaw (shown : String) (position : Nat) (front left : String) : Prop where
  split : shown = front ++ left
  size : position = front.utf8ByteSize
  stop : Stop front.toList left.toList

namespace FirstFlaw

variable {shown front left : String} {position : Nat}

theorem add_size (flaw : FirstFlaw shown position front left) :
    position + left.utf8ByteSize = shown.utf8ByteSize := by
  rw [flaw.split, flaw.size, String.utf8ByteSize_append]

/-- The position is between two characters, or at an end of the text. -/
theorem isValid (flaw : FirstFlaw shown position front left) :
    (⟨position⟩ : String.Pos.Raw).IsValid shown :=
  String.Pos.Raw.isValid_iff_exists_append.mpr
    ⟨front, left, flaw.split, by rw [flaw.size]; rfl⟩

theorem readWhole (flaw : FirstFlaw shown position front left) :
    readWhole predicate skipPeriod shown.toList = .error left.toList := by
  rw [flaw.split, String.toList_append]
  exact flaw.stop.readWhole

/-- Something is left unless the position is at the end. -/
theorem exists_next (flaw : FirstFlaw shown position front left)
    (inside : position < shown.utf8ByteSize) :
    ∃ c behind, left.toList = c :: behind := by
  refine List.exists_cons_of_ne_nil fun nothing => ?_
  have sizes := flaw.add_size
  rw [String.toList_eq_nil_iff.mp nothing, String.utf8ByteSize_empty] at sizes
  omega

/-- A comma behind an argument that no further one follows is the first flaw. -/
theorem comma (flaw : FirstFlaw shown position front left) {before behind : List Char}
    (split : shown.toList = before ++ ',' :: behind) (after : AfterArgument before)
    (none : NoArgument behind) : front.toList = before ∧ left.toList = ',' :: behind := by
  have unread := flaw.readWhole
  rw [split, (Stop.comma after none).readWhole] at unread
  have same : ',' :: behind = left.toList := Except.error.inj unread
  rw [flaw.split, String.toList_append, same] at split
  exact ⟨List.append_cancel_right split, same.symm⟩

end FirstFlaw

/-- A predicate is rejected for the first flaw of the trimmed text. -/
theorem exists_firstFlaw {text : List Char} {shown : String} {position : Nat}
    (rejected : readPredicate text = .error (.predicate shown position)) :
    shown.toList = Text.trim text ∧
      ∃ front left, FirstFlaw shown position front left := by
  rw [readPredicate, readTrimmed] at rejected
  split at rejected
  · cases rejected
  cases found : readWhole predicate skipPeriod (Text.trim text) with
  | ok p =>
      rw [found] at rejected
      cases rejected
  | error left =>
      rw [found] at rejected
      obtain ⟨front, split, stop⟩ := stop_of_readWhole found
      rw [split] at rejected
      dsimp only at rejected
      rw [stoppedAt_append] at rejected
      cases rejected
      refine ⟨by rw [String.toList_ofList, split], String.ofList front,
        String.ofList left, String.ofList_append, (Text.utf8ByteSize_ofList front).symm, ?_⟩
      rwa [String.toList_ofList, String.toList_ofList]

theorem dropQueryMark_suffix (text : List Char) : dropQueryMark text <:+ text := by
  unfold dropQueryMark
  split
  · exact List.suffix_append ['?', '-'] _
  · exact List.suffix_refl _

end Statement

namespace Example

/-- The arguments of this query end with a comma that no argument follows. -/
def commaQuery : String :=
  "?- p(a , \u00e9)"

def bareArguments : String :=
  "parent(john mary)"

end Example

namespace Statement

open Example (commaQuery bareArguments)

/--
A predicate or a query that cannot be read is rejected with a part of its text and a
position in it.  The position is between two characters, at most at the end of this
part, and reading stopped there.  What stands in front of it can be completed to a
predicate with or without a period.  With the next character it no longer can, unless
this is a comma behind an argument and no argument follows.  Where there is such a
comma, the position is the one of the comma.
-/
theorem position_of_rejected {text shown : String} {position : Nat}
    (rejected : Predicate.read text = .error (.predicate shown position) ∨
      Predicate.readQuery text = .error (.predicate shown position)) :
    shown.toList <:+: text.toList ∧
    (⟨position⟩ : String.Pos.Raw).IsValid shown ∧
    position ≤ shown.utf8ByteSize ∧
    ∃ front left : String, shown = front ++ left ∧ position = front.utf8ByteSize ∧
      readWhole predicate skipPeriod shown.toList = .error left.toList ∧
      Completable front.toList ∧
      (position < shown.utf8ByteSize → ∃ c behind, left.toList = c :: behind ∧
        (¬ Completable (front.toList ++ [c]) ∨
          c = ',' ∧ AfterArgument front.toList ∧ NoArgument behind)) ∧
      ∀ before behind, shown.toList = before ++ ',' :: behind →
        AfterArgument before → NoArgument behind →
          front.toList = before ∧ left.toList = ',' :: behind := by
  have located : shown.toList <:+: text.toList ∧
      ∃ front left, FirstFlaw shown position front left := by
    rcases rejected with rejected | rejected
    · rw [Predicate.read] at rejected
      obtain ⟨same, flaw⟩ := exists_firstFlaw rejected
      exact ⟨same ▸ Text.trim_isInfix _, flaw⟩
    · rw [Predicate.readQuery, readQuery] at rejected
      obtain ⟨same, flaw⟩ := exists_firstFlaw rejected
      refine ⟨?_, flaw⟩
      calc shown.toList
          <:+: dropQueryMark (Text.trim text.toList) := same ▸ Text.trim_isInfix _
        _ <:+: Text.trim text.toList := (dropQueryMark_suffix _).isInfix
        _ <:+: text.toList := Text.trim_isInfix _
  obtain ⟨within, front, left, flaw⟩ := located
  refine ⟨within, flaw.isValid, flaw.add_size ▸ Nat.le_add_right _ _, front, left,
    flaw.split, flaw.size, flaw.readWhole, flaw.stop.completable, fun inside => ?_,
    fun before behind => flaw.comma⟩
  obtain ⟨c, behind, next⟩ := flaw.exists_next inside
  have stop : Stop front.toList (c :: behind) := next ▸ flaw.stop
  exact ⟨c, behind, next, stop.next⟩

/-- The comma is reported where an argument is missing behind it, and the next argument
where a comma is missing in front of it. -/
theorem position_of_rejected_comma :
    Predicate.readQuery commaQuery = .error (.predicate "p(a , \u00e9)" 4) ∧
    Predicate.read bareArguments = .error (.predicate bareArguments 12) ∧
    (⟨4⟩ : String.Pos.Raw).IsValid "p(a , \u00e9)" ∧
    (AfterArgument "p(a ".toList ∧ NoArgument " \u00e9)".toList ∧
      Completable "p(a ".toList) ∧
    Completable "parent(john ".toList ∧ ¬ Completable "parent(john m".toList := by
  have atComma : Predicate.readQuery commaQuery =
      .error (.predicate "p(a , \u00e9)" 4) := by decide +kernel
  have atName : Predicate.read bareArguments =
      .error (.predicate bareArguments 12) := by decide +kernel
  have named : WrittenName ([] ++ ['p']) "p" := .mk spaces_nil (word_singleton (by decide))
  have argument : WrittenName ([] ++ ['a']) "a" := .mk spaces_nil (word_singleton (by decide))
  have items : WrittenItems Term.Written ['a'] [.const "a"] :=
    .mk (written_term_iff.mpr ⟨"a", argument, rfl⟩) .nil
  have blank : Spaces [' '] := by simp [Spaces]
  have after : AfterArgument "p(a ".toList := .mk named spaces_nil items blank
  have none : NoArgument " \u00e9)".toList :=
    noArgument_iff.mpr ⟨"\u00e9)".toList, by decide +kernel⟩
  obtain ⟨_, valid, _, front, left, _, _, _, completed, _, comma⟩ :=
    position_of_rejected (.inr atComma)
  obtain ⟨same, _⟩ := comma "p(a ".toList " \u00e9)".toList (by decide +kernel) after none
  rw [same] at completed
  obtain ⟨_, _, _, front', left', split, _, stops, completed', next, _⟩ :=
    position_of_rejected (.inl atName)
  obtain ⟨c, behind, first, flaw⟩ := next (by decide)
  have stopped : readWhole predicate skipPeriod bareArguments.toList =
      .error ('m' :: "ary)".toList) := by decide +kernel
  have same' : left'.toList = 'm' :: "ary)".toList :=
    Except.error.inj (stops.symm.trans stopped)
  have whole : bareArguments.toList = "parent(john ".toList ++ 'm' :: "ary)".toList := by
    decide +kernel
  rw [split, String.toList_append, same'] at whole
  rw [List.append_cancel_right whole] at completed' flaw
  rw [same'] at first
  cases first
  refine ⟨atComma, atName, valid, ⟨after, none, completed⟩, completed', ?_⟩
  rcases flaw with blocked | ⟨isComma, _⟩
  · exact blocked
  · cases isComma

end Statement

end HornLogic
