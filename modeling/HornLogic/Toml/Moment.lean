import HornLogic.Toml.Tree
import HornLogic.Toml.Literal

/-!
# Moments of TOML

Dates, times of day, and dates with a time of day and an optional offset.  A
moment has to exist in the calendar; nothing else is made of it.
-/

namespace HornLogic.Toml

open Text

def field (width low high : Nat) : Reader Nat := fun text =>
  let written := text.take width
  let value := ofDigits 10 written
  if written.length = width ∧ written.all Char.isDigit ∧ low ≤ value ∧ value ≤ high then
    some (value, text.drop width)
  else none

def mark (expected : Char) : List Char → Option (List Char)
  | c :: rest => if c = expected then some rest else none
  | [] => none

def daysIn (year month : Nat) : Nat :=
  if month = 2 then
    if year % 4 = 0 ∧ (year % 100 ≠ 0 ∨ year % 400 = 0) then 29 else 28
  else if month = 4 ∨ month = 6 ∨ month = 9 ∨ month = 11 then 30
  else 31

def afterDate? (text : List Char) : Option (List Char) := do
  let (year, rest) ← field 4 0 9999 text
  let rest ← mark '-' rest
  let (month, rest) ← field 2 1 12 rest
  let rest ← mark '-' rest
  let (_, rest) ← field 2 1 (daysIn year month) rest
  some rest

def afterFraction (text : List Char) : List Char :=
  match text with
  | '.' :: c :: rest => if c.isDigit then rest.dropWhile Char.isDigit else text
  | _ => text

def afterTime? (text : List Char) : Option (List Char) := do
  let (_, rest) ← field 2 0 23 text
  let rest ← mark ':' rest
  let (_, rest) ← field 2 0 59 rest
  let rest ← mark ':' rest
  let (_, rest) ← field 2 0 60 rest
  some (afterFraction rest)

def afterOffset (text : List Char) : List Char :=
  match text with
  | [] => []
  | c :: rest =>
      if c = 'Z' ∨ c = 'z' then rest
      else if c = '+' ∨ c = '-' then
        (do
          let (_, rest) ← field 2 0 23 rest
          let rest ← mark ':' rest
          let (_, rest) ← field 2 0 59 rest
          some rest).getD text
      else text

def afterDateTime (text : List Char) : List Char :=
  match text with
  | [] => []
  | c :: rest =>
      if c = 'T' ∨ c = 't' ∨ c = ' ' then
        match afterTime? rest with
        | some rest => afterOffset rest
        | none => text
      else text

def moment : Reader Value := fun text => do
  let rest ← match afterDate? text with
    | some rest => some (afterDateTime rest)
    | none => afterTime? text
  some (.moment (text.take (text.length - rest.length)), rest)

end HornLogic.Toml
