import HornLogic.Statement.Grammar

/-!
# Written statements

The grammar of statements without a reader: which texts stand for a predicate,
a clause or a whole statement.

    predicate = spaces word spaces "(" [ argument { spaces "," argument } ]
                spaces ")"
    argument  = spaces word
    clause    = predicate [ spaces ":-" predicate { spaces "," predicate } ]
    ending    = spaces [ "." ] spaces

The relations say nothing of the order in which alternatives are tried or of
how far a repetition goes.
-/

namespace HornLogic

namespace Statement

def Spaces (text : List Char) : Prop :=
  ∀ c ∈ text, c = ' ' ∨ c = '\t' ∨ c = '\r' ∨ c = '\n'

def Capital (c : Char) : Prop :=
  'A' ≤ c ∧ c ≤ 'Z'

/-- The characters of words: the letters and digits of ASCII and the
underscore. -/
def WordChar (c : Char) : Prop :=
  Capital c ∨ ('a' ≤ c ∧ c ≤ 'z') ∨ ('0' ≤ c ∧ c ≤ '9') ∨ c = '_'

structure Word (text : List Char) : Prop where
  nonempty : text ≠ []
  letters : ∀ c ∈ text, WordChar c

def Capitalized (name : String) : Prop :=
  ∃ c rest, name.toList = c :: rest ∧ Capital c

inductive WrittenName : List Char → String → Prop where
  | mk {gap word : List Char} (spaces : Spaces gap) (isWord : Word word) :
      WrittenName (gap ++ word) (String.ofList word)

/-- Items after the first one, each with a comma in front of it. -/
inductive WrittenMore {α : Type} (written : List Char → α → Prop) :
    List Char → List α → Prop where
  | nil : WrittenMore written [] []
  | cons {gap text rest : List Char} {value : α} {values : List α}
      (spaces : Spaces gap) (item : written text value)
      (more : WrittenMore written rest values) :
      WrittenMore written (gap ++ ',' :: (text ++ rest)) (value :: values)

inductive WrittenItems {α : Type} (written : List Char → α → Prop) :
    List Char → List α → Prop where
  | mk {text rest : List Char} {value : α} {values : List α}
      (item : written text value) (more : WrittenMore written rest values) :
      WrittenItems written (text ++ rest) (value :: values)

end Statement

open Statement (Spaces Capitalized WrittenName WrittenItems)

/-- An argument: a variable if a capital starts its name, else a constant. -/
inductive Term.Written : List Char → Term → Prop where
  | var {text : List Char} {name : String} (named : WrittenName text name)
      (capitalized : Capitalized name) : Written text (.var ⟨name⟩)
  | const {text : List Char} {name : String} (named : WrittenName text name)
      (other : ¬ Capitalized name) : Written text (.const name)

inductive Statement.WrittenArguments : List Char → List Term → Prop where
  | none : WrittenArguments [] []
  | some {text : List Char} {args : List Term}
      (items : WrittenItems Term.Written text args) : WrittenArguments text args

open Statement (WrittenArguments)

inductive Predicate.Written : List Char → Predicate → Prop where
  | mk {head gap inner gap' : List Char} {name : String} {args : List Term}
      (named : WrittenName head name) (spaces : Spaces gap)
      (arguments : WrittenArguments inner args) (spaces' : Spaces gap') :
      Written (head ++ (gap ++ '(' :: (inner ++ (gap' ++ [')'])))) ⟨name, args⟩

/-- A predicate alone is a fact, and one with goals behind the sign `:-` is the
head of a rule. -/
inductive Clause.Written : List Char → Clause → Prop where
  | fact {text : List Char} {p : Predicate} (alone : Predicate.Written text p) :
      Written text (.fact p)
  | rule {text gap rest : List Char} {head : Predicate} {body : List Predicate}
      (conclusion : Predicate.Written text head) (spaces : Spaces gap)
      (goals : WrittenItems Predicate.Written rest body) :
      Written (text ++ (gap ++ ':' :: '-' :: rest)) (.rule ⟨head, body⟩)

namespace Statement

/-- The end of a statement, with or without a period. -/
inductive Ending : List Char → Prop where
  | plain {gap : List Char} (spaces : Spaces gap) : Ending gap
  | period {gap gap' : List Char} (spaces : Spaces gap)
      (spaces' : Spaces gap') : Ending (gap ++ '.' :: gap')

def Whole {α : Type} (written : List Char → α → Prop) (text : List Char)
    (value : α) : Prop :=
  ∃ taken ending, text = taken ++ ending ∧ written taken value ∧ Ending ending

/-- The text of a query without its mark, if there is one at the start. -/
inductive Unmarked : List Char → List Char → Prop where
  | marked (rest : List Char) : Unmarked ('?' :: '-' :: rest) rest
  | plain {text : List Char} (bare : ∀ rest, text ≠ '?' :: '-' :: rest) :
      Unmarked text text

end Statement

end HornLogic
