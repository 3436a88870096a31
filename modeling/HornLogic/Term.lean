/-!
# Terms

A term is a constant or a variable; there are no compound terms.  A token
denotes a variable exactly when it starts with an upper-case ASCII letter.
Variables are renamed apart by a generation number after a `#`, a character
that no token contains.
-/

namespace HornLogic

structure Variable where
  name : String
deriving DecidableEq, Inhabited

namespace Variable

/-- The names that denote variables start with an upper-case ASCII letter. -/
def isName (name : String) : Bool :=
  name.toList.head?.any Char.isUpper

def base (v : Variable) : String :=
  String.ofList (v.name.toList.takeWhile (· ≠ '#'))

def renamed (v : Variable) (generation : Nat) : Variable :=
  ⟨v.base ++ "#" ++ toString generation⟩

end Variable

inductive Term where
  | const (name : String)
  | var (v : Variable)
deriving DecidableEq, Inhabited

namespace Term

/-- Read a token as a variable or a constant by its first character. -/
def ofToken (token : String) : Term :=
  if Variable.isName token then .var ⟨token⟩ else .const token

def name : Term → String
  | .const name => name
  | .var v => v.name

def isVar : Term → Bool
  | .const _ => false
  | .var _ => true

/-- The name, with a question mark in front of a variable. -/
def marked : Term → String
  | .const name => name
  | .var v => "?" ++ v.name

def renamed (generation : Nat) : Term → Term
  | .const name => .const name
  | .var v => .var (v.renamed generation)

/-- Constants come before variables, and names are in code-point order. -/
def before : Term → Term → Bool
  | .const a, .const b => a ≤ b
  | .const _, .var _ => true
  | .var _, .const _ => false
  | .var v, .var w => v.name ≤ w.name

/-- Sort terms; equal terms keep their order. -/
def sort (terms : List Term) : List Term :=
  terms.mergeSort before

end Term

end HornLogic
