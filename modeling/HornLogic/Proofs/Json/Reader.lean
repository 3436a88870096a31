import HornLogic.Json.Reader
import HornLogic.Proofs.Json
import HornLogic.Proofs.Text
import HornLogic.Proofs.Text.Numeral

/-!
# JSON written and read

What is written in JSON is read back.  An escaped text is unescaped to what it was, and
it ends at the first quote that is not escaped.  Above the literals this is carried by
`Legible`: a legible value is found at the beginning of every text that goes on with what
cannot belong to it, and arrays and objects of legible values are legible.
-/

namespace HornLogic

namespace Json

open Text

/-! ## Escaped characters -/

theorem ofDigits_fourHexDigits {code : Nat} (control : code < 32) :
    ∃ x y z w, fourHexDigits code = [x, y, z, w] ∧
      [x, y, z, w].all isHexDigit = true ∧ ofDigits 16 [x, y, z, w] = code := by
  have each : ∀ code < 32, (fourHexDigits code).length = 4 ∧
      (fourHexDigits code).all isHexDigit = true ∧
        ofDigits 16 (fourHexDigits code) = code := by
    decide
  obtain ⟨four, digits, value⟩ := each code control
  obtain ⟨x, y, z, w, same⟩ := List.length_eq_four.mp four
  rw [same] at digits value
  exact ⟨x, y, z, w, same, digits, value⟩

/-- A character is written by a letter behind a backslash, by its number, or as it is. -/
theorem escapeChar_cases (c : Char) :
    (∃ letter, escapeChar c = ['\\', letter] ∧ letter ≠ 'u' ∧
      shortEscape? letter = some c) ∨
    (∃ x y z w, escapeChar c = ['\\', 'u', x, y, z, w] ∧ c.toNat < 32 ∧
      [x, y, z, w].all isHexDigit = true ∧ ofDigits 16 [x, y, z, w] = c.toNat) ∨
    (escapeChar c = [c] ∧ c ≠ '"' ∧ c ≠ '\\' ∧ 32 ≤ c.toNat) := by
  unfold escapeChar
  split
  case isTrue quote => exact .inl ⟨'"', rfl, by decide, by rw [quote]; rfl⟩
  case isFalse noQuote =>
  split
  case isTrue backslash => exact .inl ⟨'\\', rfl, by decide, by rw [backslash]; rfl⟩
  case isFalse noBackslash =>
  -- the five controls that have a letter of their own
  iterate 5
    split
    · rename_i same
      exact .inl ⟨_, rfl, by decide, by rw [same]; rfl⟩
  split
  case isTrue control =>
    obtain ⟨x, y, z, w, same, digits, value⟩ := ofDigits_fourHexDigits control
    exact .inr (.inl ⟨x, y, z, w, by rw [same], control, digits, value⟩)
  case isFalse visible =>
    exact .inr (.inr ⟨rfl, noQuote, noBackslash, Nat.not_lt.mp visible⟩)

theorem unescape?_escapeChar (c : Char) (rest : List Char) :
    unescape? (escapeChar c ++ rest) = (unescape? rest).map (c :: ·) := by
  obtain ⟨letter, same, other, named⟩ | ⟨x, y, z, w, same, control, _, value⟩ |
    ⟨same, _, noBackslash, _⟩ := escapeChar_cases c
  · rw [same]
    simp only [List.cons_append, List.nil_append]
    rw [unescape?, named]
    · rfl
    · exact fun _ _ _ _ _ isU => absurd isU other
  · have noHigh : isHighHalf c.toNat = false := by
      simp only [isHighHalf, Bool.and_eq_false_iff, decide_eq_false_iff_not]
      omega
    have noLow : isLowHalf c.toNat = false := by
      simp only [isLowHalf, Bool.and_eq_false_iff, decide_eq_false_iff_not]
      omega
    rw [same]
    simp only [List.cons_append, List.nil_append]
    rw [unescape?.eq_def]
    simp only [value, noHigh, noLow, Bool.false_eq_true, if_false, Char.ofNat_toNat]
  · rw [same, List.cons_append, List.nil_append, unescape?]
    · exact fun _ _ _ _ _ isBackslash => absurd isBackslash noBackslash
    · exact fun _ _ isBackslash => absurd isBackslash noBackslash

/-- An escaped text is unescaped to what it was. -/
theorem unescape?_escape (text : List Char) : unescape? (escape text) = some text := by
  induction text with
  | nil => rfl
  | cons c text ih =>
      rw [escape, List.flatMap_cons, unescape?_escapeChar]
      exact congrArg (Option.map _) ih

theorem splitLiteral?_escapeChar (c : Char) (rest : List Char) :
    splitLiteral? (escapeChar c ++ rest) =
      (splitLiteral? rest).map fun (inside, rest) => (escapeChar c ++ inside, rest) := by
  obtain ⟨letter, same, other, named⟩ | ⟨x, y, z, w, same, _, digits, _⟩ |
    ⟨same, noQuote, noBackslash, visible⟩ := escapeChar_cases c
  · rw [same]
    simp only [List.cons_append, List.nil_append]
    rw [splitLiteral?, named]
    · rfl
    · exact fun _ _ _ _ _ isU => absurd isU other
  · rw [same]
    simp only [List.cons_append, List.nil_append]
    rw [splitLiteral?, if_pos digits]
  · rw [same, List.cons_append, List.nil_append, splitLiteral?,
      if_neg (Nat.not_lt.mpr visible)]
    · rfl
    · exact noQuote
    · exact fun _ _ _ _ _ isBackslash => absurd isBackslash noBackslash
    · exact fun _ _ isBackslash => absurd isBackslash noBackslash

/-- An escaped text ends at the quote behind it. -/
theorem splitLiteral?_escape (text rest : List Char) :
    splitLiteral? (escape text ++ '"' :: rest) = some (escape text, rest) := by
  induction text with
  | nil => rfl
  | cons c text ih =>
      rw [escape, List.flatMap_cons, List.append_assoc, splitLiteral?_escapeChar]
      exact congrArg (Option.map _) ih

/-! ## Numerals -/

/-- The text that goes on here cannot belong to a numeral in front of it. -/
def EndsNumeral (rest : List Char) : Prop :=
  ∀ c ∈ rest.head?, c.isDigit = false ∧ c ≠ '.' ∧ c ≠ 'e' ∧ c ≠ 'E'

section Numerals

variable {rest : List Char}

theorem splitWhole?_toDigits (n : Nat) (ends : EndsNumeral rest) :
    splitWhole? (Nat.toDigits 10 n ++ rest) = some (Nat.toDigits 10 n, rest) := by
  have each := isDigit_of_mem_toDigits (n := n)
  obtain ⟨taken, left⟩ := cut_append each fun c head => (ends c head).1
  cases written : Nat.toDigits 10 n with
  | nil => exact absurd written Nat.toDigits_ne_nil
  | cons c digits =>
      rw [written] at taken left
      by_cases zero : c = '0'
      · rw [zero] at written ⊢
        rw [toDigits_of_leading_zero written]
        rfl
      · rw [List.cons_append, splitWhole?]
        · rw [splitDigits?, ← List.cons_append, taken, left]
        · intro rest same
          exact zero (List.cons.inj same).1

theorem splitFraction?_none (ends : EndsNumeral rest) :
    splitFraction? rest = some ([], rest) := by
  unfold splitFraction?
  split
  · exact absurd rfl (ends '.' rfl).2.1
  · rfl

theorem splitExponent?_none (ends : EndsNumeral rest) :
    splitExponent? rest = some ([], rest) := by
  cases rest with
  | nil => rfl
  | cons mark rest =>
      obtain ⟨_, _, noLower, noUpper⟩ := ends mark rfl
      unfold splitExponent?
      exact if_neg (not_or.mpr ⟨noLower, noUpper⟩)

theorem splitNumeral?_toDigits (n : Nat) (ends : EndsNumeral rest) :
    splitNumeral? (Nat.toDigits 10 n ++ rest) = some (Nat.toDigits 10 n, rest) := by
  have unsigned : splitUnsigned? (Nat.toDigits 10 n ++ rest) =
      some (Nat.toDigits 10 n, rest) := by
    rw [splitUnsigned?, splitWhole?_toDigits n ends]
    simp [splitFraction?_none ends, splitExponent?_none ends]
  unfold splitNumeral?
  split
  · rename_i same
    cases written : Nat.toDigits 10 n with
    | nil => exact absurd written Nat.toDigits_ne_nil
    | cons c digits =>
        rw [written] at same
        have digit : c.isDigit = true :=
          isDigit_of_mem_toDigits c (written ▸ List.mem_cons_self)
        exact absurd (List.cons.inj same).1 (ne_of_kind digit (by decide))
  · exact unsigned

end Numerals

/-! ## Values -/

/-- A value that is found at the beginning of a text: it is seen there, it is not the end
of an array, and it is read where nothing behind it could belong to a numeral. -/
structure Legible (j : Json) : Prop where
  begins : ∃ c behind, j.chars = c :: behind ∧ isSpace c = false ∧ c ≠ ']'
  reads : ∀ (steps : Nat) (rest : List Char), 2 * j.chars.length ≤ steps →
    EndsNumeral rest → readValue? steps (j.chars ++ rest) = some (j, rest)

theorem Legible.of_scalar {j : Json} {c : Char} {behind : List Char}
    (begins : j.chars = c :: behind) (solid : isSpace c = false) (noEnd : c ≠ ']')
    (noArray : c ≠ '[') (noObject : c ≠ '\x7b')
    (reads : ∀ rest, EndsNumeral rest → readScalar? (j.chars ++ rest) = some (j, rest)) :
    Legible j where
  begins := ⟨c, behind, begins, solid, noEnd⟩
  reads steps rest enough ends := by
    have read := reads rest ends
    rw [begins] at enough read ⊢
    cases steps with
    | zero => cases enough
    | succ steps =>
        unfold readValue?
        rw [List.cons_append, skipSpace_cons solid]
        split
        · rename_i same
          exact absurd (List.cons.inj same).1 noArray
        · rename_i same
          exact absurd (List.cons.inj same).1 noObject
        · exact read

theorem legible_bool (value : Bool) : Legible (bool value) := by
  cases value with
  | true =>
      have written : (bool true).chars = ['t', 'r', 'u', 'e'] := by rw [chars]; rfl
      refine .of_scalar written (by decide) (by decide) (by decide) (by decide) ?_
      intro rest _
      rw [written]
      rfl
  | false =>
      have written : (bool false).chars = ['f', 'a', 'l', 's', 'e'] := by rw [chars]; rfl
      refine .of_scalar written (by decide) (by decide) (by decide) (by decide) ?_
      intro rest _
      rw [written]
      rfl

theorem legible_ofString (text : String) : Legible (ofString text) := by
  have written : (ofString text).chars = '"' :: (escape text.toList ++ ['"']) := by
    rw [ofString, chars]
    rfl
  refine .of_scalar written (by decide) (by decide) (by decide) (by decide) ?_
  intro rest _
  have quoted : (ofString text).chars ++ rest =
      '"' :: (escape text.toList ++ '"' :: rest) := by
    rw [written]
    simp
  rw [quoted, readScalar?, splitLiteral?_escape]
  rfl

/-- A digit begins neither a literal nor a word. -/
theorem readScalar?_digit {c : Char} (digit : c.isDigit = true) (text : List Char) :
    readScalar? (c :: text) =
      (splitNumeral? (c :: text)).map fun (written, rest) => (numeral written, rest) := by
  unfold readScalar?
  split
  case h_5 => cases splitNumeral? (c :: text) <;> rfl
  all_goals
    rename_i same
    obtain ⟨rfl, _⟩ := List.cons.inj same
    cases digit

theorem legible_ofNat (n : Nat) : Legible (ofNat n) := by
  have written : (ofNat n).chars = Nat.toDigits 10 n := by rw [ofNat, chars]
  cases begins : Nat.toDigits 10 n with
  | nil => exact absurd begins Nat.toDigits_ne_nil
  | cons c digits =>
      have digit : c.isDigit = true :=
        isDigit_of_mem_toDigits c (begins ▸ List.mem_cons_self)
      have solid : isSpace c = false := by
        simp [isSpace, ne_of_kind digit (show ' '.isDigit = false by decide),
          ne_of_kind digit (show '\t'.isDigit = false by decide),
          ne_of_kind digit (show '\r'.isDigit = false by decide),
          ne_of_kind digit (show '\n'.isDigit = false by decide)]
      refine .of_scalar (written.trans begins) solid (ne_of_kind digit (by decide))
        (ne_of_kind digit (by decide)) (ne_of_kind digit (by decide)) ?_
      intro rest ends
      have read := splitNumeral?_toDigits n ends
      rw [begins, List.cons_append] at read
      rw [written, begins, List.cons_append, readScalar?_digit digit, read, ofNat, begins]
      rfl

/-! ## Arrays and objects -/

theorem endsNumeral_cons {c : Char} (mark : c = ',' ∨ c = ']' ∨ c = '\x7d')
    (rest : List Char) : EndsNumeral (c :: rest) := by
  rintro _ ⟨⟩
  obtain rfl | rfl | rfl := mark <;> decide

theorem chars_length_pos {j : Json} (legible : Legible j) : 0 < j.chars.length := by
  obtain ⟨c, behind, begins, _⟩ := legible.begins
  rw [begins]
  exact Nat.succ_pos _

theorem itemChars_cons_cons (item next : Json) (items : List Json) :
    itemChars (item :: next :: items) = item.chars ++ ',' :: itemChars (next :: items) := by
  simp [itemChars, moreItemChars]

/-- The items of an array are read up to its end. -/
theorem readItems?_itemChars {item : Json} {items : List Json}
    (legible : ∀ other ∈ item :: items, Legible other) {steps : Nat}
    (enough : 2 * (itemChars (item :: items)).length + 1 ≤ steps) (rest : List Char) :
    readItems? steps (itemChars (item :: items) ++ ']' :: rest) =
      some (item :: items, rest) := by
  obtain ⟨steps, rfl⟩ := Nat.exists_eq_succ_of_ne_zero (show steps ≠ 0 by omega)
  induction items generalizing item steps with
  | nil =>
      have text : itemChars [item] = item.chars := by simp [itemChars, moreItemChars]
      rw [text] at enough ⊢
      have one := (legible item List.mem_cons_self).reads steps (']' :: rest) (by omega)
        (endsNumeral_cons (by decide) rest)
      rw [Nat.succ_eq_add_one, readItems?, one]
      rfl
  | cons next items ih =>
      obtain ⟨first, others⟩ := List.forall_mem_cons.mp legible
      have visible := chars_length_pos first
      rw [itemChars_cons_cons] at enough ⊢
      rw [List.length_append, List.length_cons] at enough
      obtain ⟨steps, rfl⟩ := Nat.exists_eq_succ_of_ne_zero (show steps ≠ 0 by omega)
      have one := first.reads (steps + 1)
        (',' :: (itemChars (next :: items) ++ ']' :: rest)) (by omega)
        (endsNumeral_cons (by decide) _)
      have more := ih others steps (by omega)
      rw [List.append_assoc, List.cons_append, Nat.succ_eq_add_one, readItems?, one]
      change (readItems? (steps + 1) _).bind _ = _
      rw [more]
      rfl

theorem readValue?_array {text : List Char} {c : Char} {behind : List Char}
    (begins : text = c :: behind) (solid : isSpace c = false) (noEnd : c ≠ ']')
    (steps : Nat) : readValue? (steps + 1) ('[' :: text) =
      (readItems? steps text).map fun (items, rest) => (array items, rest) := by
  have blank : isSpace '[' = false := by decide
  simp only [readValue?, skipSpace_cons blank, begins, skipSpace_cons solid]
  split
  · rename_i same
    exact absurd (List.cons.inj same).1 noEnd
  · cases readItems? steps (c :: behind) <;> rfl

theorem readValue?_object {text : List Char} {c : Char} {behind : List Char}
    (begins : text = c :: behind) (solid : isSpace c = false) (noEnd : c ≠ '\x7d')
    (steps : Nat) : readValue? (steps + 1) ('\x7b' :: text) =
      (readMembers? steps text).map fun (members, rest) => (object members, rest) := by
  have blank : isSpace '\x7b' = false := by decide
  simp only [readValue?, skipSpace_cons blank, begins, skipSpace_cons solid]
  split
  · rename_i same
    exact absurd (List.cons.inj same).1 noEnd
  · cases readMembers? steps (c :: behind) <;> rfl

theorem legible_array {items : List Json} (legible : ∀ item ∈ items, Legible item) :
    Legible (array items) where
  begins := ⟨'[', itemChars items ++ [']'], by rw [chars]; rfl, by decide, by decide⟩
  reads steps rest enough ends := by
    have text : (array items).chars ++ rest = '[' :: (itemChars items ++ ']' :: rest) := by
      simp [chars]
    have long : (array items).chars.length = (itemChars items).length + 2 := by
      simp [chars]
    rw [long] at enough
    obtain ⟨steps, rfl⟩ := Nat.exists_eq_succ_of_ne_zero (show steps ≠ 0 by omega)
    rw [text]
    cases items with
    | nil => rw [Nat.succ_eq_add_one, readValue?, skipSpace_cons (by decide)]; rfl
    | cons item items =>
        have inside : readItems? steps (itemChars (item :: items) ++ ']' :: rest) =
            some (item :: items, rest) := readItems?_itemChars legible (by omega) rest
        obtain ⟨c, behind, begins, solid, noEnd⟩ :=
          (List.forall_mem_cons.mp legible).1.begins
        have seen : itemChars (item :: items) ++ ']' :: rest =
            c :: (behind ++ moreItemChars items ++ ']' :: rest) := by
          simp [itemChars, begins]
        rw [Nat.succ_eq_add_one, readValue?_array seen solid noEnd, inside]
        rfl

def escapeNames (members : List (String × Json)) : List (List Char × Json) :=
  members.map fun member => (escape member.1.toList, member.2)

theorem readKey?_quote (key rest : List Char) :
    readKey? (quote (escape key) ++ ':' :: rest) = some (escape key, rest) := by
  have text : quote (escape key) ++ ':' :: rest =
      '"' :: (escape key ++ '"' :: ':' :: rest) := by
    simp [quote]
  rw [text, readKey?, skipSpace_cons (by decide)]
  change (splitLiteral? (escape key ++ '"' :: ':' :: rest)).bind _ = _
  rw [splitLiteral?_escape]
  rfl

theorem memberChars_cons_cons (member next : List Char × Json)
    (members : List (List Char × Json)) :
    memberChars (member :: next :: members) =
      quote member.1 ++ ':' :: (member.2.chars ++ ',' :: memberChars (next :: members)) := by
  simp [memberChars, moreMemberChars]

/-- The members of an object are read up to its end. -/
theorem readMembers?_memberChars {member : String × Json} {members : List (String × Json)}
    (legible : ∀ other ∈ member :: members, Legible other.2) {steps : Nat}
    (enough : 2 * (memberChars (escapeNames (member :: members))).length + 1 ≤ steps)
    (rest : List Char) :
    readMembers? steps (memberChars (escapeNames (member :: members)) ++ '\x7d' :: rest) =
      some (escapeNames (member :: members), rest) := by
  obtain ⟨steps, rfl⟩ := Nat.exists_eq_succ_of_ne_zero (show steps ≠ 0 by omega)
  induction members generalizing member steps with
  | nil =>
      have text : memberChars (escapeNames [member]) =
          quote (escape member.1.toList) ++ ':' :: member.2.chars := by
        simp [escapeNames, memberChars, moreMemberChars]
      rw [text] at enough ⊢
      rw [List.length_append, List.length_cons] at enough
      have one := (legible member List.mem_cons_self).reads steps ('\x7d' :: rest)
        (by omega) (endsNumeral_cons (by decide) rest)
      rw [List.append_assoc, List.cons_append, Nat.succ_eq_add_one, readMembers?,
        readKey?_quote]
      simp only [Option.bind_eq_bind, Option.bind_some, one]
      rfl
  | cons next members ih =>
      obtain ⟨first, others⟩ := List.forall_mem_cons.mp legible
      have text : memberChars (escapeNames (member :: next :: members)) =
          quote (escape member.1.toList) ++ ':' :: (member.2.chars ++
            ',' :: memberChars (escapeNames (next :: members))) :=
        memberChars_cons_cons _ _ _
      rw [text] at enough ⊢
      simp only [List.length_append, List.length_cons] at enough
      obtain ⟨steps, rfl⟩ := Nat.exists_eq_succ_of_ne_zero (show steps ≠ 0 by omega)
      have one := first.reads (steps + 1)
        (',' :: (memberChars (escapeNames (next :: members)) ++ '\x7d' :: rest)) (by omega)
        (endsNumeral_cons (by decide) _)
      have more := ih others steps (by omega)
      simp only [List.append_assoc, List.cons_append]
      rw [Nat.succ_eq_add_one, readMembers?, readKey?_quote]
      simp only [Option.bind_eq_bind, Option.bind_some, one]
      rw [skipSpace_cons (by decide)]
      change (readMembers? (steps + 1) _).bind _ = _
      rw [more]
      rfl

theorem legible_ofMembers {members : List (String × Json)}
    (legible : ∀ member ∈ members, Legible member.2) : Legible (ofMembers members) where
  begins := ⟨'\x7b', memberChars (escapeNames members) ++ ['\x7d'],
    by rw [ofMembers, chars]; rfl, by decide, by decide⟩
  reads steps rest enough ends := by
    have text : (ofMembers members).chars ++ rest =
        '\x7b' :: (memberChars (escapeNames members) ++ '\x7d' :: rest) := by
      simp [ofMembers, escapeNames, chars]
    have long : (ofMembers members).chars.length =
        (memberChars (escapeNames members)).length + 2 := by
      simp [ofMembers, escapeNames, chars]
    rw [long] at enough
    obtain ⟨steps, rfl⟩ := Nat.exists_eq_succ_of_ne_zero (show steps ≠ 0 by omega)
    rw [text]
    cases members with
    | nil => rw [Nat.succ_eq_add_one, readValue?, skipSpace_cons (by decide)]; rfl
    | cons member members =>
        have inside : readMembers? steps
            (memberChars (escapeNames (member :: members)) ++ '\x7d' :: rest) =
              some (escapeNames (member :: members), rest) :=
          readMembers?_memberChars legible (by omega) rest
        have seen : memberChars (escapeNames (member :: members)) ++ '\x7d' :: rest =
            '"' :: (escape member.1.toList ++ '"' :: ':' :: member.2.chars ++
              moreMemberChars (escapeNames members) ++ '\x7d' :: rest) := by
          simp [escapeNames, memberChars, quote]
        rw [Nat.succ_eq_add_one, readValue?_object seen (by decide) (by decide), inside]
        rfl

/-! ## Texts -/

theorem Made.legible {j : Json} (made : Made j) : Legible j := by
  induction made with
  | bool value => exact legible_bool value
  | ofString text => exact legible_ofString text
  | ofNat n => exact legible_ofNat n
  | array _ ih => exact legible_array ih
  | ofMembers _ ih => exact legible_ofMembers ih

/-- A record is read back from its written form, whatever space is behind it. -/
theorem read?_append {j : Json} (made : Made j) {space : List Char}
    (blank : ∀ c ∈ space, isSpace c = true) :
    read? (j.render ++ String.ofList space) = some j := by
  have ends : EndsNumeral space := by
    intro c head
    have white := blank c (List.mem_of_mem_head? head)
    simp only [isSpace, Bool.or_eq_true, beq_iff_eq] at white
    obtain ((rfl | rfl) | rfl) | rfl := white <;> decide
  have skipped : skipSpace space = [] := by
    rw [skipSpace, List.dropWhile_eq_nil_iff]
    exact blank
  have text : (j.render ++ String.ofList space).toList = j.chars ++ space := by
    simp [render]
  rw [read?, text, made.legible.reads _ space (by rw [List.length_append]; omega) ends]
  exact if_pos skipped

theorem read?_render {j : Json} (made : Made j) : read? j.render = some j := by
  have read := read?_append made (List.forall_mem_nil _)
  rwa [String.ofList_nil, String.append_empty] at read

end Json

end HornLogic
