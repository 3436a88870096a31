/-!
# Details

A map from texts to texts, kept in ascending order of its keys.  Two maps
with the same entries are therefore the same value, whatever the order in
which the entries were made.
-/

namespace HornLogic

/-- Entries in strictly ascending order of their keys. -/
structure Details where
  entries : List (String × String)
  sorted : entries.Pairwise (·.1 < ·.1) := by simp
deriving DecidableEq

namespace Details

def empty : Details :=
  ⟨[], .nil⟩

instance : Inhabited Details := ⟨empty⟩

/-- Put an entry in its place, replacing one with the same key. -/
def put (key value : String) : List (String × String) → List (String × String)
  | [] => [(key, value)]
  | (k, v) :: rest =>
      if key < k then (key, value) :: (k, v) :: rest
      else if key = k then (key, value) :: rest
      else (k, v) :: put key value rest

theorem fst_of_mem_put {key value : String} {entries : List (String × String)}
    {entry : String × String} (member : entry ∈ put key value entries) :
    entry.1 = key ∨ entry ∈ entries := by
  induction entries with
  | nil =>
      rw [put, List.mem_singleton] at member
      exact .inl (by rw [member])
  | cons head rest ih =>
      obtain ⟨k, v⟩ := head
      rw [put] at member
      split at member
      · rcases List.mem_cons.1 member with rfl | old
        · exact .inl rfl
        · exact .inr old
      · split at member
        · rcases List.mem_cons.1 member with rfl | old
          · exact .inl rfl
          · exact .inr (List.mem_cons_of_mem _ old)
        · rcases List.mem_cons.1 member with rfl | new
          · exact .inr (List.mem_cons_self ..)
          · exact (ih new).imp_right (List.mem_cons_of_mem _)

theorem sorted_put {key value : String} {entries : List (String × String)}
    (sorted : entries.Pairwise (·.1 < ·.1)) :
    (put key value entries).Pairwise (·.1 < ·.1) := by
  induction entries with
  | nil => simp [put]
  | cons head rest ih =>
      obtain ⟨k, v⟩ := head
      obtain ⟨below, ordered⟩ := List.pairwise_cons.1 sorted
      rw [put]
      split
      · rename_i less
        refine List.pairwise_cons.2 ⟨fun entry member => ?_, sorted⟩
        rcases List.mem_cons.1 member with rfl | later
        · exact less
        · exact String.lt_trans less (below entry later)
      · rename_i notLess
        split
        · rename_i same
          subst same
          exact List.pairwise_cons.2 ⟨below, ordered⟩
        · rename_i different
          have greater : k < key :=
            Std.lt_of_le_of_ne (String.not_lt.1 notLess) (Ne.symm different)
          refine List.pairwise_cons.2 ⟨fun entry member => ?_, ih ordered⟩
          rcases fst_of_mem_put member with new | later
          · rw [new]
            exact greater
          · exact below entry later

def insert (d : Details) (key value : String) : Details :=
  ⟨put key value d.entries, sorted_put d.sorted⟩

/-- The map that a list of entries builds up; later entries win. -/
def ofList (entries : List (String × String)) : Details :=
  entries.foldl (fun d entry => d.insert entry.1 entry.2) empty

def isEmpty (d : Details) : Bool :=
  d.entries.isEmpty

def get? (d : Details) (key : String) : Option String :=
  d.entries.lookup key

end Details

end HornLogic
