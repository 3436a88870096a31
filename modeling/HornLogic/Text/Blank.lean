/-!
# White space

Two notions of white space are in use.  `isBlank` is the white space of
Unicode: whole statements, lines and settings are trimmed by it.  `isSpace`
holds of the four characters that may separate the tokens inside a statement
or a JSON text.
-/

namespace HornLogic.Text

/-- The characters with the Unicode property `White_Space`. -/
def isBlank (c : Char) : Bool :=
  let code := c.toNat
  (9 ≤ code && code ≤ 13) || code == 0x20 || code == 0x85 || code == 0xA0 ||
    code == 0x1680 || (0x2000 ≤ code && code ≤ 0x200A) || code == 0x2028 ||
    code == 0x2029 || code == 0x202F || code == 0x205F || code == 0x3000

/-- The characters that may stand between two tokens. -/
def isSpace (c : Char) : Bool :=
  c == ' ' || c == '\t' || c == '\r' || c == '\n'

def allBlank (text : List Char) : Bool :=
  text.all isBlank

def trimStart (text : List Char) : List Char :=
  text.dropWhile isBlank

def trimEnd (text : List Char) : List Char :=
  (text.reverse.dropWhile isBlank).reverse

def trim (text : List Char) : List Char :=
  trimEnd (trimStart text)

def skipSpace (text : List Char) : List Char :=
  text.dropWhile isSpace

/-- Drop one `last` from the end of the text, if it stands there. -/
def dropLastIf (last : Char) (text : List Char) : List Char :=
  match text.reverse with
  | c :: rest => if c = last then rest.reverse else text
  | [] => text

def byteLength : List Char → Nat
  | [] => 0
  | c :: rest => c.utf8Size + byteLength rest

theorem isBlank_of_isSpace {c : Char} (space : isSpace c = true) :
    isBlank c = true := by
  simp only [isSpace, Bool.or_eq_true, beq_iff_eq] at space
  rcases space with ((rfl | rfl) | rfl) | rfl <;> decide

/-- A text is blank exactly when nothing is left of it after trimming. -/
theorem trim_eq_nil_iff {text : List Char} :
    trim text = [] ↔ allBlank text = true := by
  have dropped : ∀ s : List Char, s.dropWhile isBlank = [] ↔ s.all isBlank = true := by
    intro s
    induction s with
    | nil => simp
    | cons c s ih =>
        rw [List.dropWhile_cons, List.all_cons]
        cases isBlank c <;> simp [ih]
  have suffix : ∀ s : List Char,
      (s.dropWhile isBlank).all isBlank = s.all isBlank := by
    intro s
    induction s with
    | nil => rfl
    | cons c s ih =>
        rw [List.dropWhile_cons]
        by_cases blank : isBlank c = true <;> simp [blank, ih]
  unfold trim trimEnd trimStart allBlank
  rw [List.reverse_eq_nil_iff, dropped, List.all_reverse, suffix]

end HornLogic.Text
