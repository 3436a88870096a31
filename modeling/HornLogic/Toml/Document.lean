import HornLogic.Toml.Reader

/-!
# TOML documents

A document is a row of lines: keys with values, headers that open tables, and
lines with nothing but a comment.  `Toml.read?` reads a document as the
entries of its root table.
-/

namespace HornLogic.Toml

/-- A document read so far: its root and the table that keys belong to. -/
structure Draft where
  root : Entries := []
  path : List String := []

namespace Draft

def inCurrent (draft : Draft) (change : Entries → Option Entries) : Option Draft := do
  let root ← draft.root.descend .implied (fun _ entries => change entries)
    draft.path .opened
  some { draft with root := root }

def assign (draft : Draft) (key : Key) (value : Value) : Option Draft :=
  draft.inCurrent fun entries => entries.assign key.path key.last value

def openTable (draft : Draft) (key : Key) : Option Draft := do
  let root ← draft.root.descend .implied (Entries.openTable key.last) key.path .opened
  some ⟨root, key.path ++ [key.last]⟩

def openItem (draft : Draft) (key : Key) : Option Draft := do
  let root ← draft.root.descend .implied (Entries.openItem key.last) key.path .opened
  some ⟨root, key.path ++ [key.last]⟩

end Draft

/-- The text behind the end of a line: white space, a comment, a line feed. -/
def endLine? (text : List Char) : Option (List Char) :=
  match afterComment (skipBlanks text) with
  | [] => some []
  | rest => newline? rest

def line (draft : Draft) (text : List Char) : Option (Draft × List Char) :=
  match skipBlanks text with
  | '[' :: '[' :: rest => do
      let (key, rest) ← key rest
      let rest ← mark ']' rest
      let rest ← mark ']' rest
      let rest ← endLine? rest
      let draft ← draft.openItem key
      some (draft, rest)
  | '[' :: rest => do
      let (key, rest) ← key rest
      let rest ← mark ']' rest
      let rest ← endLine? rest
      let draft ← draft.openTable key
      some (draft, rest)
  | start =>
      match endLine? start with
      | some rest => some (draft, rest)
      | none => do
          let ((key, value), rest) ← keyValue (value (levelLimit - 1)) start
          let rest ← endLine? rest
          let draft ← draft.assign key value
          some (draft, rest)

def lines (draft : Draft) (text : List Char) : Option Draft :=
  if text = [] then
    some draft
  else
    match line draft text with
    | none => none
    | some (draft, rest) =>
        if rest.length < text.length then lines draft rest else none
termination_by text.length

/-- Read a document; a byte order mark at its start does not count. -/
def read? (text : String) : Option (List (String × Value)) :=
  let symbols := match text.toList with
    | '\uFEFF' :: rest => rest
    | symbols => symbols
  (lines {} symbols).map fun draft => entryValues draft.root

end HornLogic.Toml
