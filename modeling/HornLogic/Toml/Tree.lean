/-!
# TOML trees

The values of TOML and the tree of tables that grows while a document is
read.  A table is opened by a header or an inline value, implied by a header
below it, or implied by a dotted key; these three kinds differ in how the
table may be extended later.  Every function refuses an extension that the
format forbids by yielding nothing.
-/

namespace HornLogic.Toml

/-- A value; floats and moments keep their written form. -/
inductive Value where
  | string (text : String)
  | integer (value : Int)
  | float (written : List Char)
  | bool (value : Bool)
  | moment (written : List Char)
  | array (items : List Value)
  | table (entries : List (String × Value))
deriving Inhabited

/-- How a table came into being. -/
inductive Origin where
  /-- By a header of its own; this is also the origin of the root. -/
  | opened
  /-- By the header of a table below it. -/
  | implied
  /-- By a dotted key. -/
  | dotted
deriving DecidableEq

inductive Node where
  | value (value : Value)
  | table (origin : Origin) (entries : List (String × Node))
  /-- An array of tables: the finished ones and the last. -/
  | tables (finished : List (List (String × Node))) (last : List (String × Node))

/-- The entries of a table that is being read. -/
abbrev Entries := List (String × Node)

namespace Entries

def replace (key : String) (node : Node) (entries : Entries) : Entries :=
  entries.map fun entry => if entry.1 = key then (key, node) else entry

/--
Change the table at the end of a path.  Missing tables on the way are made,
with `origin` as their origin.  A dotted path may not enter an opened table;
a path enters an array of tables at its last table.
-/
def descend (origin : Origin) (change : Origin → Entries → Option Entries) :
    List String → Origin → Entries → Option Entries
  | [], here, entries => change here entries
  | key :: path, _, entries =>
      match entries.lookup key with
      | none => do
          let inner ← descend origin change path origin []
          some (entries ++ [(key, .table origin inner)])
      | some (.value _) => none
      | some (.table kind inner) =>
          if origin = .dotted ∧ kind = .opened then none
          else do
            let inner ← descend origin change path kind inner
            some (replace key (.table kind inner) entries)
      | some (.tables finished last) => do
          let last ← descend origin change path .opened last
          some (replace key (.tables finished last) entries)

/--
Give a value to a key of a table; the table of a dotted key is made by dotted
keys alone, and any other one by none.
-/
def define (viaDots : Bool) (key : String) (value : Value) (here : Origin)
    (entries : Entries) : Option Entries :=
  if (here = .dotted) ≠ viaDots then none
  else if (entries.lookup key).isSome then none
  else some (entries ++ [(key, .value value)])

/-- Give a value to a key, whose leading parts name tables. -/
def assign (path : List String) (key : String) (value : Value) (entries : Entries) :
    Option Entries :=
  entries.descend .dotted (define (path ≠ []) key value) path .opened

def openTable (key : String) (_ : Origin) (entries : Entries) : Option Entries :=
  match entries.lookup key with
  | none => some (entries ++ [(key, .table .opened [])])
  | some (.table .implied inner) => some (replace key (.table .opened inner) entries)
  | some _ => none

def openItem (key : String) (_ : Origin) (entries : Entries) : Option Entries :=
  match entries.lookup key with
  | none => some (entries ++ [(key, .tables [] [])])
  | some (.tables finished last) =>
      some (replace key (.tables (finished ++ [last]) []) entries)
  | some _ => none

end Entries

mutual

def Node.toValue : Node → Value
  | .value value => value
  | .table _ entries => .table (entryValues entries)
  | .tables finished last =>
      .array (tableValues finished ++ [.table (entryValues last)])

def entryValues : List (String × Node) → List (String × Value)
  | [] => []
  | (key, node) :: rest => (key, node.toValue) :: entryValues rest

def tableValues : List (List (String × Node)) → List Value
  | [] => []
  | entries :: rest => .table (entryValues entries) :: tableValues rest

end

end HornLogic.Toml
