import HornLogic.Proofs.Statement.Stopping

/-!
# What rejections point at

A clause is rejected with a part of its text that is not empty: the whole of it, or
the goal that cannot be read.  Where a position is given, it is one in that part.
-/

namespace HornLogic

namespace Statement

open Text (trim trimStart byteLength dropLastIf skipSpace)

/-- The rejection shows a part of the text, and a position between two characters of
that part if it is one of a predicate. -/
inductive Blames (text : List Char) : Rejection → Prop where
  | predicate {front left : List Char} (nonempty : front ++ left ≠ [])
      (within : front ++ left <:+: text) :
      Blames text (.predicate (String.ofList (front ++ left)) (byteLength front))
  | rule {shown : List Char} (nonempty : shown ≠ []) (within : shown <:+: text)
      (flaw : RuleFlaw) : Blames text (.rule (String.ofList shown) flaw)

theorem Blames.mono {part text : List Char} {rejection : Rejection}
    (blames : Blames part rejection) (within : part <:+: text) : Blames text rejection := by
  cases blames with
  | predicate nonempty inside => exact .predicate nonempty (inside.trans within)
  | rule nonempty inside flaw => exact .rule nonempty (inside.trans within) flaw

theorem blames_stoppedAt {text left : List Char} (nonempty : text ≠ [])
    (ends : left <:+ text) : Blames text (.stoppedAt text left) := by
  obtain ⟨front, rfl⟩ := ends
  rw [stoppedAt_append]
  exact .predicate nonempty List.infix_rfl

/-! ## Goals -/

theorem skipPeriod_suffix (rest : List Char) : skipPeriod rest <:+ rest := by
  have spaces : ∀ text, skipSpace text <:+ text := fun _ => List.dropWhile_suffix _
  rw [skipPeriod]
  split
  · rename_i behind period
    calc skipSpace behind
        <:+ behind := spaces behind
      _ <:+ '.' :: behind := List.suffix_cons _ _
      _ <:+ rest := period ▸ spaces rest
  · exact spaces rest

/-- Reading a whole text stops in front of an end of it. -/
theorem readWhole_suffix {α : Type} {reader : Reader α} {text left : List Char}
    {skipEnd : List Char → List Char} (ends : ∀ rest, skipEnd rest <:+ rest)
    (stops : ∀ {left}, reader text = .error left → left <:+ text)
    (reads : ∀ {value rest}, reader text = .ok (value, rest) → rest <:+ text)
    (failed : readWhole reader skipEnd text = .error left) : left <:+ text := by
  rcases readWhole_eq_error_iff.mp failed with failed | ⟨value, rest, found, rfl, _⟩
  · exact stops failed
  · exact (ends rest).trans (reads found)

theorem blames_readGoal {goal : List Char} {rejection : Rejection}
    (trimmed : trim goal = goal) (nonempty : goal ≠ [])
    (rejected : readGoal goal = .error rejection) : Blames goal rejection := by
  rw [readGoal, trimmed, readTrimmed, if_neg nonempty] at rejected
  cases found : readWhole predicate skipSpace goal with
  | ok p =>
      rw [found] at rejected
      cases rejected
  | error left =>
      rw [found] at rejected
      cases rejected
      exact blames_stoppedAt nonempty (readWhole_suffix
        (fun _ => List.dropWhile_suffix _) predicate_suffix predicate_reads.suffix found)

/-- A goal that stands in a rule is rejected with the rule or with a part of the goal. -/
theorem blames_explainGoal {text goal : List Char} (trimmed : trim goal = goal)
    (nonempty : goal ≠ []) (within : goal <:+: text) :
    Blames text (explainGoal text goal) := by
  have something : text ≠ [] := by
    rintro rfl
    exact nonempty (List.infix_nil.mp within)
  rw [explainGoal]
  split
  · exact .rule something List.infix_rfl _
  · cases found : readGoal goal with
    | ok p => exact .rule something List.infix_rfl _
    | error rejection =>
        exact (blames_readGoal trimmed nonempty found).mono within

theorem lastGoal_within (text : List Char) : lastGoal text <:+: text :=
  (Text.trim_isInfix _).trans (Text.dropLastIf_isPrefix '.' text).isInfix

/-- The last goal of a rule is rejected so, unless nothing is left of it. -/
theorem blames_lastGoal {text rest : List Char} (nonempty : text ≠ [])
    (within : rest <:+: text) (flaw : RuleFlaw) :
    Blames text (match lastGoal rest with
      | [] => .rule (String.ofList text) flaw
      | goal => explainGoal text goal) := by
  split
  · exact .rule nonempty List.infix_rfl flaw
  · rename_i something
    exact blames_explainGoal (Text.trim_trim _) something
      ((lastGoal_within rest).trans within)

/-! ## Clauses -/

theorem blames_explainBody {text body : List Char} (nonempty : text ≠ [])
    (within : body <:+ text) : Blames text (explainBody text body) := by
  have spaces : ∀ rest, trimStart rest <:+: rest := fun _ =>
    (List.dropWhile_suffix _).isInfix
  rw [explainBody]
  split
  · rename_i rest found
    have inside : rest <:+: text := ((bodyGoals_reads.suffix found).trans within).isInfix
    split
    · rename_i behind comma
      refine blames_lastGoal nonempty ?_ _
      calc trim behind
          <:+: behind := Text.trim_isInfix _
        _ <:+: ',' :: behind := (List.suffix_cons _ _).isInfix
        _ <:+: rest := comma ▸ spaces rest
        _ <:+: text := inside
    · exact .rule nonempty List.infix_rfl _
  · exact blames_lastGoal nonempty ((spaces body).trans within.isInfix) _

theorem blames_explain {text left : List Char} (nonempty : text ≠ [])
    (ends : left <:+ text) : Blames text (explain text left) := by
  rw [explain]
  split
  · exact .rule nonempty List.infix_rfl _
  split
  · exact blames_stoppedAt nonempty ends
  · rename_i head body found
    exact blames_explainBody nonempty (ruleHead_reads.suffix found)

theorem clause_suffix {text left : List Char} (stops : clause text = .error left) :
    left <:+ text := by
  rw [clause] at stops
  split at stops
  · cases stops
  · rcases bind_eq_error.mp stops with stops | ⟨_, _, stops⟩
    · exact predicate_suffix stops
    · cases stops

/-- A text that is not blank and no clause is rejected with a part of it. -/
theorem blames_readClause {text : List Char} {rejection : Rejection}
    (solid : Text.allBlank text = false) (rejected : readClause text = .error rejection) :
    Blames text rejection := by
  have nonempty : trim text ≠ [] := by
    rw [ne_eq, Text.trim_eq_nil_iff, solid]
    exact Bool.false_ne_true
  rw [readClause] at rejected
  rw [if_neg nonempty] at rejected
  cases found : readWhole clause skipPeriod (trim text) with
  | ok c =>
      rw [found] at rejected
      cases rejected
  | error left =>
      rw [found] at rejected
      cases rejected
      have ends := readWhole_suffix skipPeriod_suffix clause_suffix clause_reads.suffix found
      exact (blames_explain nonempty ends).mono (Text.trim_isInfix text)

end Statement

end HornLogic
