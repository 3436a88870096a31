import HornLogic.Proofs.Text
import HornLogic.Proofs.Text.Numeral
import HornLogic.Toml.Document

/-!
# Plainly written documents

The plainest documents of TOML: every line is empty, a comment, opens a table by a bare
word, or gives a bare key a text without escapes, a natural number or a truth value.
Such lines are read one by one, and each is read as what it says.
-/

namespace HornLogic.Toml

open Text

/-! ## Bare words -/

def Bare (word : List Char) : Prop :=
  word ≠ [] ∧ ∀ c ∈ word, isKeyChar c = true

instance (word : List Char) : Decidable (Bare word) :=
  haveI := List.decidableBAll (fun c => isKeyChar c = true) word
  inferInstanceAs (Decidable (word ≠ [] ∧ ∀ c ∈ word, isKeyChar c = true))

theorem Bare.exists_cons {word : List Char} (bare : Bare word) :
    ∃ c rest, word = c :: rest ∧ isKeyChar c = true := by
  obtain ⟨nonempty, each⟩ := bare
  obtain ⟨c, rest, rfl⟩ := List.exists_cons_of_ne_nil nonempty
  exact ⟨c, rest, rfl, each c List.mem_cons_self⟩

theorem isLineSpace_of_isKeyChar {c : Char} (letter : isKeyChar c = true) :
    isLineSpace c = false := by
  have noSpace : c ≠ ' ' := ne_of_kind letter (by decide)
  have noTab : c ≠ '\t' := ne_of_kind letter (by decide)
  simp [isLineSpace, noSpace, noTab]

theorem skipBlanks_of_head {text : List Char}
    (visible : ∀ c ∈ text.head?, isLineSpace c = false) : skipBlanks text = text :=
  (cut_append (List.forall_mem_nil _) visible).2

section Keys

variable {word rest : List Char}

theorem skipBlanks_bare (bare : Bare word) (rest : List Char) :
    skipBlanks (word ++ rest) = word ++ rest := by
  obtain ⟨c, others, rfl, letter⟩ := bare.exists_cons
  refine skipBlanks_of_head ?_
  rintro _ ⟨⟩
  exact isLineSpace_of_isKeyChar letter

theorem keyPart_bare (bare : Bare word) (stops : ∀ c ∈ rest.head?, isKeyChar c = false) :
    keyPart (word ++ rest) = some (String.ofList word, rest) := by
  obtain ⟨taken, left⟩ := cut_append bare.2 stops
  obtain ⟨first, others, rfl, letter⟩ := bare.exists_cons
  unfold keyPart
  split
  · rename_i quoted
    exact absurd (List.cons.inj quoted).1 (ne_of_kind letter (by decide))
  · rename_i quoted
    exact absurd (List.cons.inj quoted).1 (ne_of_kind letter (by decide))
  · rw [taken, left]

theorem moreKeyParts_of_head {text : List Char} (undotted : ∀ c ∈ text.head?, c ≠ '.') :
    moreKeyParts text = some ([], text) := by
  unfold moreKeyParts
  split
  · exact absurd rfl (undotted '.' rfl)
  · rfl

/-- A bare word that no period follows is a key of one part. -/
theorem key_bare (bare : Bare word) (stops : ∀ c ∈ rest.head?, isKeyChar c = false)
    (undotted : ∀ c ∈ (skipBlanks rest).head?, c ≠ '.') :
    key (word ++ rest) = some (⟨[], String.ofList word⟩, skipBlanks rest) := by
  rw [key, skipBlanks_bare bare, keyPart_bare bare stops]
  simp only [Option.bind_eq_bind, Option.bind_some, moreKeyParts_of_head undotted]
  rfl

end Keys

/-! ## Texts -/

section Texts

variable {inside : List Char}

theorem basicString_plain
    (each : ∀ c ∈ inside, isPlain c = true ∧ c ≠ '"' ∧ c ≠ '\\') (rest : List Char) :
    basicString (inside ++ '"' :: rest) = some (inside, rest) := by
  induction inside with
  | nil => rw [List.nil_append, basicString]
  | cons c inside ih =>
      obtain ⟨⟨plain, noQuote, noEscape⟩, others⟩ := List.forall_mem_cons.mp each
      rw [List.cons_append, basicString]
      · rw [if_pos plain, ih others]
        rfl
      · exact noQuote
      · exact noEscape

/-- A text that is not empty does not begin with the three quotes of several lines. -/
theorem string_plain (nonempty : inside ≠ [])
    (each : ∀ c ∈ inside, isPlain c = true ∧ c ≠ '"' ∧ c ≠ '\\') (rest : List Char) :
    string ('"' :: (inside ++ '"' :: rest)) = some (String.ofList inside, rest) := by
  have single : string ('"' :: (inside ++ '"' :: rest)) =
      lineString ('"' :: (inside ++ '"' :: rest)) := by
    obtain ⟨c, others, rfl⟩ := List.exists_cons_of_ne_nil nonempty
    have noQuote : c ≠ '"' := (each c List.mem_cons_self).2.1
    unfold string
    split
    · rename_i tripled
      simp only [List.cons_append, List.cons.injEq] at tripled
      exact absurd tripled.2.1 noQuote
    · rename_i quoted
      cases quoted
    · rfl
  rw [single, lineString, basicString_plain each]
  rfl

end Texts

/-! ## Numbers -/

section Numbers

variable {digits : List Char}

theorem moreDigits_append (each : ∀ c ∈ digits, c.isDigit = true) (rest : List Char) :
    moreDigits Char.isDigit (digits ++ '\n' :: rest) = (digits, '\n' :: rest) := by
  induction digits with
  | nil =>
      rw [List.nil_append, moreDigits]
      · rfl
      · intro c rest same
        cases same
  | cons c digits ih =>
      obtain ⟨digit, others⟩ := List.forall_mem_cons.mp each
      rw [List.cons_append, moreDigits]
      · rw [if_pos digit, ih others]
      · rintro c' rest' rfl
        cases digit

/-- The digits at the beginning of a number are followed by no mark that makes it a moment. -/
theorem mark_of_field {width low high value : Nat} {rest behind : List Char}
    (each : ∀ c ∈ digits, c.isDigit = true)
    (isField : field width low high (digits ++ '\n' :: rest) = some (value, behind))
    {c : Char} (noDigit : c.isDigit = false) (noFeed : c ≠ '\n') : mark c behind = none := by
  rw [field, Option.ite_none_right_eq_some, Option.some.injEq, Prod.mk.injEq] at isField
  obtain ⟨⟨long, numeral, _⟩, _, rfl⟩ := isField
  -- the field ends within the digits, for a line feed is none
  have within : width ≤ digits.length := by
    by_contra beyond
    have feed : '\n' ∈ (digits ++ '\n' :: rest).take width := by
      rw [List.take_append]
      refine List.mem_append_right _ ?_
      have zeros : width - digits.length ≠ 0 := by omega
      obtain ⟨n, more⟩ := Nat.exists_eq_succ_of_ne_zero zeros
      rw [more, List.take_succ_cons]
      exact List.mem_cons_self
    exact absurd (List.all_eq_true.mp numeral _ feed) (by decide)
  rw [List.drop_append_of_le_length within]
  cases left : digits.drop width with
  | nil => exact if_neg (Ne.symm noFeed)
  | cons d others =>
      have digit : d.isDigit = true :=
        each d (List.mem_of_mem_drop (left ▸ List.mem_cons_self))
      exact if_neg (ne_of_kind digit noDigit)

theorem moment_digits (each : ∀ c ∈ digits, c.isDigit = true) (rest : List Char) :
    moment (digits ++ '\n' :: rest) = none := by
  have noDate : afterDate? (digits ++ '\n' :: rest) = none := by
    rw [afterDate?]
    cases isField : field 4 0 9999 (digits ++ '\n' :: rest) with
    | none => rfl
    | some year =>
        simp [mark_of_field each isField (show '-'.isDigit = false by decide) (by decide)]
  have noTime : afterTime? (digits ++ '\n' :: rest) = none := by
    rw [afterTime?]
    cases isField : field 2 0 23 (digits ++ '\n' :: rest) with
    | none => rfl
    | some hour =>
        simp [mark_of_field each isField (show ':'.isDigit = false by decide) (by decide)]
  rw [moment, noDate, noTime]
  rfl

theorem decimal_toDigits {n : Nat} (small : isInteger n = true) (rest : List Char) :
    decimal false (Nat.toDigits 10 n ++ '\n' :: rest) = some (.integer n, '\n' :: rest) := by
  have whole : wholeDigits (Nat.toDigits 10 n ++ '\n' :: rest) =
      some (Nat.toDigits 10 n, '\n' :: rest) := by
    cases written : Nat.toDigits 10 n with
    | nil => exact absurd written Nat.toDigits_ne_nil
    | cons c digits =>
        have each : ∀ d ∈ c :: digits, d.isDigit = true := written ▸ isDigit_of_mem_toDigits
        obtain ⟨digit, others⟩ := List.forall_mem_cons.mp each
        by_cases zero : c = '0'
        · rw [zero] at written ⊢
          rw [toDigits_of_leading_zero written]
          rfl
        · rw [List.cons_append, wholeDigits, Toml.digits, if_pos digit,
            moreDigits_append others]
          intro rest same
          exact zero (List.cons.inj same).1
  have fractionless : fraction ('\n' :: rest) = some ([], '\n' :: rest) := rfl
  have plain : exponent ('\n' :: rest) = some (none, '\n' :: rest) := rfl
  rw [decimal, whole]
  simp [fractionless, plain, ofDigits_toDigits, small]

theorem number_toDigits {n : Nat} (small : isInteger n = true) (rest : List Char) :
    number (Nat.toDigits 10 n ++ '\n' :: rest) = some (.integer n, '\n' :: rest) := by
  have read := decimal_toDigits small rest
  cases written : Nat.toDigits 10 n with
  | nil => exact absurd written Nat.toDigits_ne_nil
  | cons c digits =>
      rw [written] at read
      have digit : c.isDigit = true :=
        isDigit_of_mem_toDigits c (written ▸ List.mem_cons_self)
      have unprefixed (base : Char) (feed : base ≠ '\n') (behind : List Char) :
          c :: digits ++ '\n' :: rest ≠ '0' :: base :: behind := by
        intro same
        obtain ⟨rfl, tail⟩ := List.cons.inj same
        rw [toDigits_of_leading_zero written] at tail
        exact feed (List.cons.inj tail).1.symm
      have unsigned : sign (c :: digits ++ '\n' :: rest) =
          (false, c :: digits ++ '\n' :: rest) := by
        unfold sign
        split
        · rename_i same
          exact absurd (List.cons.inj same).1 (ne_of_kind digit (by decide))
        · rename_i same
          exact absurd (List.cons.inj same).1 (ne_of_kind digit (by decide))
        · rfl
      unfold number
      split
      · rename_i same
        exact absurd same (unprefixed 'x' (by decide) _)
      · rename_i same
        exact absurd same (unprefixed 'o' (by decide) _)
      · rename_i same
        exact absurd same (unprefixed 'b' (by decide) _)
      · rw [unsigned]
        dsimp only
        split
        · rename_i same
          exact absurd (List.cons.inj same).1 (ne_of_kind digit (by decide))
        · rename_i same
          exact absurd (List.cons.inj same).1 (ne_of_kind digit (by decide))
        · exact read

end Numbers

/-! ## Scalars -/

/-- A digit begins neither a text nor a truth value. -/
theorem scalar_digit {c : Char} (digit : c.isDigit = true) (text : List Char) :
    scalar (c :: text) = (moment (c :: text)).or (number (c :: text)) := by
  unfold scalar
  split
  case h_5 => rfl
  all_goals
    rename_i same
    obtain ⟨rfl, _⟩ := List.cons.inj same
    cases digit

inductive Plain where
  | text (value : String)
  | natural (value : Nat)
  | bool (value : Bool)

namespace Plain

def written : Plain → String
  | text value => "\"" ++ value ++ "\""
  | natural value => toString value
  | bool value => if value then "true" else "false"

def value : Plain → Value
  | text value => .string value
  | natural value => .integer value
  | bool value => .bool value

/-- A text needs no escape and is not empty, and a number is among the integers. -/
def Fits : Plain → Prop
  | text value => value.toList ≠ [] ∧
      ∀ c ∈ value.toList, isPlain c = true ∧ c ≠ '"' ∧ c ≠ '\\'
  | natural value => isInteger value = true
  | bool _ => True

instance : ∀ plain : Plain, Decidable plain.Fits
  | text value =>
      haveI := List.decidableBAll (fun c => isPlain c = true ∧ c ≠ '"' ∧ c ≠ '\\')
        value.toList
      inferInstanceAs (Decidable (value.toList ≠ [] ∧
        ∀ c ∈ value.toList, isPlain c = true ∧ c ≠ '"' ∧ c ≠ '\\'))
  | natural value => inferInstanceAs (Decidable (isInteger value = true))
  | bool _ => inferInstanceAs (Decidable True)

theorem toList_written_natural (value : Nat) :
    (written (natural value)).toList = Nat.toDigits 10 value := by
  rw [written, Nat.toString_eq_repr, Nat.toList_repr]

/-- A plain value begins neither with white space nor with a bracket. -/
theorem exists_written (plain : Plain) : ∃ c behind, plain.written.toList = c :: behind ∧
    isLineSpace c = false ∧ c ≠ '[' ∧ c ≠ '\x7b' := by
  cases plain with
  | text value =>
      exact ⟨'"', value.toList ++ ['"'], by simp [written], by decide, by decide, by decide⟩
  | natural value =>
      rw [toList_written_natural]
      cases same : Nat.toDigits 10 value with
      | nil => exact absurd same Nat.toDigits_ne_nil
      | cons c behind =>
          have digit : c.isDigit = true :=
            isDigit_of_mem_toDigits c (same ▸ List.mem_cons_self)
          have noSpace : c ≠ ' ' := ne_of_kind digit (by decide)
          have noTab : c ≠ '\t' := ne_of_kind digit (by decide)
          exact ⟨c, behind, rfl, by simp [isLineSpace, noSpace, noTab],
            ne_of_kind digit (by decide), ne_of_kind digit (by decide)⟩
  | bool value =>
      cases value
      · exact ⟨'f', _, rfl, by decide, by decide, by decide⟩
      · exact ⟨'t', _, rfl, by decide, by decide, by decide⟩

theorem scalar_written {plain : Plain} (fits : plain.Fits) (rest : List Char) :
    scalar (plain.written.toList ++ '\n' :: rest) = some (plain.value, '\n' :: rest) := by
  cases plain with
  | text value =>
      have quoted : (written (text value)).toList ++ '\n' :: rest =
          '"' :: (value.toList ++ '"' :: '\n' :: rest) := by
        simp [written]
      rw [quoted, scalar, string_plain fits.1 fits.2, String.ofList_toList]
      rfl
  | natural value =>
      rw [toList_written_natural]
      have noMoment := moment_digits (isDigit_of_mem_toDigits (n := value)) rest
      have read := number_toDigits fits rest
      cases same : Nat.toDigits 10 value with
      | nil => exact absurd same Nat.toDigits_ne_nil
      | cons c others =>
          have digit : c.isDigit = true :=
            isDigit_of_mem_toDigits c (same ▸ List.mem_cons_self)
          rw [same] at noMoment read
          rw [List.cons_append, scalar_digit digit, ← List.cons_append, noMoment,
            Option.none_or, read]
          rfl
  | bool value =>
      cases value <;> rfl

/-- A plain value is read as what it says, whatever may be nested around it. -/
theorem value_written {plain : Plain} (fits : plain.Fits) (levels : Nat)
    (rest : List Char) :
    Toml.value levels (plain.written.toList ++ '\n' :: rest) =
      some (plain.value, '\n' :: rest) := by
  have read := scalar_written fits rest
  obtain ⟨c, behind, begins, _, noArray, noTable⟩ := plain.exists_written
  rw [begins] at read ⊢
  cases levels with
  | zero => exact read
  | succ levels =>
      unfold Toml.value
      split
      · rename_i nested
        exact absurd (List.cons.inj nested).1 noArray
      · rename_i nested
        exact absurd (List.cons.inj nested).1 noTable
      · exact read

end Plain

/-! ## Lines -/

inductive PlainLine where
  | empty
  | comment (text : String)
  | header (name : String)
  | pair (key : String) (plain : Plain)

namespace PlainLine

def written : PlainLine → String
  | empty => "\n"
  | comment text => "# " ++ text ++ "\n"
  | header name => "[" ++ name ++ "]\n"
  | pair key plain => key ++ " = " ++ plain.written ++ "\n"

def Fits : PlainLine → Prop
  | empty => True
  | comment text => ∀ c ∈ text.toList, isPlain c = true
  | header name => Bare name.toList
  | pair key plain => Bare key.toList ∧ plain.Fits

instance : ∀ l : PlainLine, Decidable l.Fits
  | empty => inferInstanceAs (Decidable True)
  | comment text => List.decidableBAll (fun c => isPlain c = true) text.toList
  | header name => inferInstanceAs (Decidable (Bare name.toList))
  | pair key plain => inferInstanceAs (Decidable (Bare key.toList ∧ plain.Fits))

/-- What the line makes of the document in front of it. -/
def enter (draft : Draft) : PlainLine → Option Draft
  | empty => some draft
  | comment _ => some draft
  | header name => draft.openTable ⟨[], name⟩
  | pair key plain => draft.assign ⟨[], key⟩ plain.value

variable {l : PlainLine}

/-- A comment ends with its line and changes nothing. -/
theorem line_comment {text : List Char} (each : ∀ c ∈ text, isPlain c = true)
    (draft : Draft) (rest : List Char) :
    line draft ('#' :: ' ' :: (text ++ '\n' :: rest)) = some (draft, rest) := by
  have visible : skipBlanks ('#' :: ' ' :: (text ++ '\n' :: rest)) =
      '#' :: ' ' :: (text ++ '\n' :: rest) :=
    skipBlanks_of_head (by rintro _ ⟨⟩; rfl)
  have plain : ∀ c ∈ ' ' :: text, isPlain c = true :=
    List.forall_mem_cons.mpr ⟨rfl, each⟩
  have stops : ∀ c ∈ ('\n' :: rest).head?, isPlain c = false := by
    rintro _ ⟨⟩
    rfl
  have passed : afterComment ('#' :: ' ' :: (text ++ '\n' :: rest)) = '\n' :: rest :=
    (cut_append plain stops).2
  have ended : endLine? ('#' :: ' ' :: (text ++ '\n' :: rest)) = some rest := by
    rw [endLine?, visible, passed]
    rfl
  unfold line
  rw [visible]
  split
  · rename_i same
    cases (List.cons.inj same).1
  · rename_i same
    cases (List.cons.inj same).1
  · rw [ended]

/-- The header of a table with a bare name opens the table. -/
theorem line_header {name : List Char} (bare : Bare name) (draft : Draft)
    (rest : List Char) :
    line draft ('[' :: (name ++ ']' :: '\n' :: rest)) =
      (draft.openTable ⟨[], String.ofList name⟩).map fun next => (next, rest) := by
  have visible : skipBlanks ('[' :: (name ++ ']' :: '\n' :: rest)) =
      '[' :: (name ++ ']' :: '\n' :: rest) :=
    skipBlanks_of_head (by rintro _ ⟨⟩; rfl)
  have isKey : key (name ++ ']' :: '\n' :: rest) =
      some (⟨[], String.ofList name⟩, ']' :: '\n' :: rest) :=
    key_bare bare (by rintro _ ⟨⟩; rfl) (by rintro _ ⟨⟩; decide)
  have ended : endLine? ('\n' :: rest) = some rest := rfl
  unfold line
  rw [visible]
  split
  · -- a bare name does not begin with a bracket
    rename_i doubled
    obtain ⟨c, others, rfl, letter⟩ := bare.exists_cons
    simp only [List.cons_append, List.cons.injEq] at doubled
    exact absurd doubled.2.1 (ne_of_kind letter (by decide))
  · rename_i inside _ same
    obtain ⟨_, rfl⟩ := List.cons.inj same
    simp only [isKey, mark, ended, Option.bind_eq_bind, Option.bind_some, if_pos]
    cases draft.openTable ⟨[], String.ofList name⟩ <;> rfl
  · rename_i other
    exact absurd rfl (other _)

/-- A bare key is neither a comment nor the end of a line. -/
theorem endLine?_bare {word : List Char} (bare : Bare word) (rest : List Char) :
    endLine? (word ++ rest) = none := by
  rw [endLine?, skipBlanks_bare bare]
  obtain ⟨c, others, rfl, letter⟩ := bare.exists_cons
  have noComment : afterComment (c :: others ++ rest) = c :: others ++ rest := by
    unfold afterComment
    split
    · rename_i same
      exact absurd (List.cons.inj same).1 (ne_of_kind letter (by decide))
    · rfl
  rw [noComment, List.cons_append]
  dsimp only
  unfold newline?
  split
  · rename_i same
    exact absurd (List.cons.inj same).1 (ne_of_kind letter (by decide))
  · rename_i same
    exact absurd (List.cons.inj same).1 (ne_of_kind letter (by decide))
  · rfl

/-- A bare key with a plain value gives the key this value. -/
theorem line_pair {word : List Char} (bare : Bare word) {plain : Plain}
    (fits : plain.Fits) (draft : Draft) (rest : List Char) :
    line draft (word ++ ' ' :: '=' :: ' ' :: (plain.written.toList ++ '\n' :: rest)) =
      (draft.assign ⟨[], String.ofList word⟩ plain.value).map fun next => (next, rest) := by
  have isKey : key (word ++ ' ' :: '=' :: ' ' :: (plain.written.toList ++ '\n' :: rest)) =
      some (⟨[], String.ofList word⟩,
        '=' :: ' ' :: (plain.written.toList ++ '\n' :: rest)) :=
    key_bare bare (by rintro _ ⟨⟩; rfl) (by rintro _ ⟨⟩; decide)
  have visible : skipBlanks (' ' :: (plain.written.toList ++ '\n' :: rest)) =
      plain.written.toList ++ '\n' :: rest := by
    obtain ⟨c, behind, begins, noSpace, _⟩ := plain.exists_written
    rw [begins]
    change skipBlanks (c :: behind ++ '\n' :: rest) = _
    exact skipBlanks_of_head (by rintro _ ⟨⟩; exact noSpace)
  have isPair : keyValue (value (levelLimit - 1))
      (word ++ ' ' :: '=' :: ' ' :: (plain.written.toList ++ '\n' :: rest)) =
        some ((⟨[], String.ofList word⟩, plain.value), '\n' :: rest) := by
    rw [keyValue, isKey]
    simp only [mark, visible, Plain.value_written fits, Option.bind_eq_bind,
      Option.bind_some, if_pos]
  have ended : endLine? ('\n' :: rest) = some rest := rfl
  have unended := endLine?_bare bare
    (' ' :: '=' :: ' ' :: (plain.written.toList ++ '\n' :: rest))
  unfold line
  rw [skipBlanks_bare bare]
  obtain ⟨c, others, rfl, letter⟩ := bare.exists_cons
  split
  · rename_i same
    exact absurd (List.cons.inj same).1 (ne_of_kind letter (by decide))
  · rename_i same
    exact absurd (List.cons.inj same).1 (ne_of_kind letter (by decide))
  · rw [unended, isPair]
    simp only [ended, Option.bind_eq_bind, Option.bind_some]
    cases draft.assign ⟨[], String.ofList (c :: others)⟩ plain.value <;> rfl

/-- A line is read as what it says. -/
theorem line_written (fits : l.Fits) (draft : Draft) (rest : List Char) :
    line draft (l.written.toList ++ rest) =
      (l.enter draft).map fun next => (next, rest) := by
  cases l with
  | empty => rfl
  | comment text =>
      have read := line_comment fits draft rest
      have begins : (written (comment text)).toList ++ rest =
          '#' :: ' ' :: (text.toList ++ '\n' :: rest) := by
        simp [written]
      rw [begins, read]
      rfl
  | header name =>
      have read := line_header fits draft rest
      rw [String.ofList_toList] at read
      have text : (written (header name)).toList ++ rest =
          '[' :: (name.toList ++ ']' :: '\n' :: rest) := by
        simp [written]
      rw [text, read, enter]
  | pair key plain =>
      have read := line_pair fits.1 fits.2 draft rest
      rw [String.ofList_toList] at read
      have text : (written (pair key plain)).toList ++ rest =
          key.toList ++ ' ' :: '=' :: ' ' :: (plain.written.toList ++ '\n' :: rest) := by
        simp [written]
      rw [text, read, enter]

/-- A plain line is not nothing, and it does not begin with the mark that may stand in
front of a document. -/
theorem exists_written (fits : l.Fits) :
    ∃ c behind, l.written.toList = c :: behind ∧ c ≠ '\uFEFF' := by
  cases l with
  | empty => exact ⟨'\n', [], rfl, by decide⟩
  | comment text =>
      exact ⟨'#', ' ' :: text.toList ++ ['\n'], by simp [written], by decide⟩
  | header name =>
      exact ⟨'[', name.toList ++ [']', '\n'], by simp [written], by decide⟩
  | pair key plain =>
      obtain ⟨c, behind, begins, letter⟩ := fits.1.exists_cons
      exact ⟨c, behind ++ " = ".toList ++ plain.written.toList ++ ['\n'],
        by simp [written, begins], ne_of_kind letter (by decide)⟩

end PlainLine

/-! ## Documents -/

open PlainLine (line_written)

/-- The lines of a document are entered one after the other. -/
theorem lines_written {ls : List PlainLine} (fits : ∀ l ∈ ls, l.Fits) (draft : Draft) :
    lines draft (ls.flatMap (·.written.toList)) = ls.foldlM PlainLine.enter draft := by
  induction ls generalizing draft with
  | nil => rw [List.flatMap_nil, lines, if_pos rfl]; rfl
  | cons l ls ih =>
      obtain ⟨first, others⟩ := List.forall_mem_cons.mp fits
      obtain ⟨c, behind, begins, _⟩ := PlainLine.exists_written first
      have nonempty : l.written.toList ++ ls.flatMap (·.written.toList) ≠ [] := by
        simp [begins]
      have shorter : (ls.flatMap (·.written.toList)).length <
          (l.written.toList ++ ls.flatMap (·.written.toList)).length := by
        rw [begins, List.length_append, List.length_cons]
        omega
      rw [List.flatMap_cons, List.foldlM_cons, lines, if_neg nonempty,
        line_written first]
      cases l.enter draft with
      | none => rfl
      | some next =>
          simp only [Option.map_some, if_pos shorter, ih others]
          rfl

/-- A document of plain lines has no mark in front of it. -/
theorem read?_written {ls : List PlainLine} (fits : ∀ l ∈ ls, l.Fits) :
    read? (String.join (ls.map PlainLine.written)) =
      (ls.foldlM PlainLine.enter {}).map fun draft => entryValues draft.root := by
  have text : (String.join (ls.map PlainLine.written)).toList =
      ls.flatMap (·.written.toList) := by
    simp [List.flatMap_map]
  rw [read?, text, ← lines_written fits]
  split
  · rename_i marked
    cases ls with
    | nil => cases marked
    | cons l ls =>
        obtain ⟨c, behind, begins, unmarked⟩ :=
          PlainLine.exists_written (List.forall_mem_cons.mp fits).1
        rw [List.flatMap_cons, begins] at marked
        exact absurd (List.cons.inj marked).1 unmarked
  · rfl

end HornLogic.Toml
