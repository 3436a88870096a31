import HornLogic.Proofs.Statement.Stopping

/-!
# Explained rejections

A clause that cannot be read is rejected for the first flaw that explains it.  The
goals of a rule that can be read are skipped, and the next one cannot be, so that it
is never found to be in order: as long as all white space in the text is such that may
stand between tokens, every rejected rule has one of the flaws that a rule can have.
-/

namespace HornLogic

namespace Statement

open Text (isBlank trim trimStart Trimmed trimmed_iff byteLength dropLastIf
  dropLastIf_isPrefix trim_isPrefix isBlank_of_isSpace)

/-! ## The next goal -/

/-- All white space in the text is such that may stand between tokens. -/
def PlainlySpaced (text : List Char) : Prop :=
  ∀ c ∈ text, isBlank c = true → c = ' ' ∨ c = '\t' ∨ c = '\r' ∨ c = '\n'

-- By the characters of the text, not by all characters there are.
instance (text : List Char) : Decidable (PlainlySpaced text) :=
  List.decidableBAll _ text

/-- What stands behind the goals that were read, and behind a comma if there are
any, without the white space around it and without one period at its end. -/
inductive NextGoal : List Predicate → List Char → List Char → Prop where
  | first (rest : List Char) : NextGoal [] rest (trim (dropLastIf '.' (trim rest)))
  | further (first : Predicate) (goals : List Predicate) (behind : List Char) :
      NextGoal (first :: goals) (',' :: behind) (trim (dropLastIf '.' (trim behind)))

theorem PlainlySpaced.of_infix {text part : List Char} (spaced : PlainlySpaced text)
    (within : part <:+: text) : PlainlySpaced part :=
  fun c member => spaced c (within.subset member)

theorem PlainlySpaced.exists_gap {text : List Char} (spaced : PlainlySpaced text) :
    ∃ gap, Spaces gap ∧ text = gap ++ trimStart text := by
  refine ⟨text.takeWhile isBlank, fun c member => ?_,
    List.takeWhile_append_dropWhile.symm⟩
  exact spaced c ((List.takeWhile_prefix _).subset member)
    (List.mem_takeWhile_imp member)

theorem goal_isPrefix (text : List Char) :
    trim (dropLastIf '.' (trim text)) <+: trimStart text := by
  have starts := Text.head_trimStart text
  obtain ⟨back, _, split⟩ := Text.exists_trimEnd (trimStart text)
  have whole : trim text <+: trimStart text := ⟨back, split.symm⟩
  have shorter := (dropLastIf_isPrefix '.' (trim text)).trans whole
  refine (trim_isPrefix ?_).trans shorter
  obtain ⟨behind, split⟩ := shorter
  intro c first
  refine starts c ?_
  rw [← split]
  exact List.mem_head?_append_of_mem_head? first

theorem NextGoal.trimmed {goals : List Predicate} {rest goal : List Char}
    (next : NextGoal goals rest goal) : trim goal = goal := by
  cases next with
  | first rest => exact Text.trim_trim _
  | further first goals behind => exact Text.trim_trim _

theorem NextGoal.within {goals : List Predicate} {rest goal : List Char}
    (next : NextGoal goals rest goal) : goal <:+: rest := by
  cases next with
  | first rest =>
      exact (goal_isPrefix rest).isInfix.trans (List.dropWhile_suffix _).isInfix
  | further first goals behind =>
      exact ((goal_isPrefix behind).isInfix.trans (List.dropWhile_suffix _).isInfix).trans
        (List.suffix_cons _ _).isInfix

/-- Where no predicate begins, none begins without the white space in front. -/
theorem NoPredicate.nextGoal {text : List Char} (none : NoPredicate text)
    (spaced : PlainlySpaced text) : NoPredicate (trim (dropLastIf '.' (trim text))) := by
  obtain ⟨gap, spaces, split⟩ := spaced.exists_gap
  rw [split] at none
  exact (none.behind spaces).of_isPrefix (goal_isPrefix text)

/-- The next goal does not begin with a predicate: it would have been read. -/
theorem NextGoal.noPredicate {body rest goal : List Char} {goals : List Predicate}
    (leading : LeadingGoals body goals rest)
    (next : NextGoal goals (trimStart rest) goal) (spaced : PlainlySpaced body) :
    NoPredicate goal := by
  cases leading with
  | none noGoal =>
      obtain ⟨gap, spaces, split⟩ := spaced.exists_gap
      have within : trimStart body <:+: body := (List.dropWhile_suffix _).isInfix
      cases next with
      | first rest =>
          rw [split] at noGoal
          exact (noGoal.behind spaces).nextGoal (spaced.of_infix within)
  | @some taken rest goals isGoals noMore =>
      have spaced : PlainlySpaced rest :=
        spaced.of_infix (List.suffix_append _ _).isInfix
      obtain ⟨gap, spaces, split⟩ := spaced.exists_gap
      generalize found : trimStart rest = remainder at next split
      cases next with
      | first rest => cases isGoals
      | further first goals behind =>
          refine (noMore gap behind split spaces).nextGoal (spaced.of_infix ?_)
          rw [split]
          exact (List.suffix_cons _ _).isInfix.trans (List.suffix_append _ _).isInfix

/-! ## Verdicts -/

/-- The first flaw behind the goals in front, by what remains of the body. -/
inductive Verdict (text : List Char) (goals : List Predicate)
    (remainder : List Char) : Rejection → Prop where
  | missingComma (preceded : goals ≠ []) (other : remainder.head? ≠ some ',') :
      Verdict text goals remainder (.rule (String.ofList text) .missingComma)
  | emptyBody {goal : List Char} (next : NextGoal goals remainder goal)
      (alone : goals = []) (nothing : goal = []) :
      Verdict text goals remainder (.rule (String.ofList text) .emptyBody)
  | emptyGoal {goal : List Char} (next : NextGoal goals remainder goal)
      (flawed : goal.head? = some ',' ∨ goals ≠ [] ∧ goal = []) :
      Verdict text goals remainder (.rule (String.ofList text) .emptyGoal)
  | badGoal {front left : List Char} (next : NextGoal goals remainder (front ++ left))
      (something : front ++ left ≠ []) (other : (front ++ left).head? ≠ some ',')
      (unread : predicate (front ++ left) = .error left) :
      Verdict text goals remainder
        (.predicate (String.ofList (front ++ left)) (byteLength front))

section Verdict

variable {text remainder goal : List Char} {goals : List Predicate}
  {rejection : Rejection}

theorem NextGoal.unique {goal' : List Char} (next : NextGoal goals remainder goal)
    (next' : NextGoal goals remainder goal') : goal = goal' := by
  cases next <;> cases next' <;> rfl

theorem NextGoal.comma (next : NextGoal goals remainder goal) (preceded : goals ≠ []) :
    remainder.head? = some ',' := by
  cases next with
  | first rest => exact absurd rfl preceded
  | further first goals behind => rfl

namespace Verdict

theorem flaw_ne (verdict : Verdict text goals remainder rejection) {shown : String}
    {flaw : RuleFlaw} (same : rejection = .rule shown flaw) :
    flaw ≠ .missingHead ∧ flaw.message ≠ RuleFlaw.malformedBody.message := by
  cases verdict <;> cases same <;> decide

theorem ne_empty (verdict : Verdict text goals remainder rejection) :
    rejection ≠ .empty := by
  cases verdict <;> exact nofun

theorem missingComma_iff (verdict : Verdict text goals remainder rejection)
    (preceded : goals ≠ []) :
    rejection = .rule (String.ofList text) .missingComma ↔
      remainder.head? ≠ some ',' := by
  cases verdict with
  | missingComma _ other => exact iff_of_true rfl other
  | emptyBody _ alone _ => exact absurd alone preceded
  | emptyGoal next _ => exact iff_of_false nofun fun other => other (next.comma preceded)
  | badGoal next _ _ _ => exact iff_of_false nofun fun other => other (next.comma preceded)

/-- Where there is a next goal, the flaw is one of it. -/
theorem of_next (verdict : Verdict text goals remainder rejection)
    (next : NextGoal goals remainder goal) :
    (goals = [] ∧ goal = []) ∧ rejection = .rule (String.ofList text) .emptyBody ∨
    (goal.head? = some ',' ∨ goals ≠ [] ∧ goal = []) ∧
      rejection = .rule (String.ofList text) .emptyGoal ∨
    (goal ≠ [] ∧ goal.head? ≠ some ',') ∧
      ∃ front left, goal = front ++ left ∧ predicate goal = .error left ∧
        rejection = .predicate (String.ofList goal) (byteLength front) := by
  cases verdict with
  | missingComma preceded other => exact absurd (next.comma preceded) other
  | emptyBody next' alone nothing =>
      exact .inl ⟨⟨alone, (next.unique next').trans nothing⟩, rfl⟩
  | emptyGoal next' flawed =>
      rw [next.unique next']
      exact .inr (.inl ⟨flawed, rfl⟩)
  | @badGoal front left next' something other unread =>
      rw [next.unique next']
      exact .inr (.inr ⟨⟨something, other⟩, front, left, rfl, unread, rfl⟩)

theorem emptyBody_iff (verdict : Verdict text goals remainder rejection)
    (next : NextGoal goals remainder goal) :
    rejection = .rule (String.ofList text) .emptyBody ↔ goals = [] ∧ goal = [] := by
  rcases verdict.of_next next with
    ⟨empty, rfl⟩ | ⟨flawed, rfl⟩ | ⟨⟨something, _⟩, _, _, _, _, rfl⟩
  · exact iff_of_true rfl empty
  · refine iff_of_false nofun ?_
    rintro ⟨alone, nothing⟩
    rw [alone, nothing] at flawed
    revert flawed
    decide
  · exact iff_of_false nofun fun empty => something empty.2

theorem emptyGoal_iff (verdict : Verdict text goals remainder rejection)
    (next : NextGoal goals remainder goal) :
    rejection = .rule (String.ofList text) .emptyGoal ↔
      goal.head? = some ',' ∨ goals ≠ [] ∧ goal = [] := by
  rcases verdict.of_next next with
    ⟨⟨alone, nothing⟩, rfl⟩ | ⟨flawed, rfl⟩ | ⟨⟨something, other⟩, _, _, _, _, rfl⟩
  · rw [alone, nothing]
    exact iff_of_false nofun (by decide)
  · exact iff_of_true rfl flawed
  · refine iff_of_false nofun ?_
    rintro (comma | ⟨_, nothing⟩)
    · exact other comma
    · exact something nothing

/-- In all other cases the next goal is rejected, for what stands at its
beginning. -/
theorem eq_predicate (verdict : Verdict text goals remainder rejection)
    (next : NextGoal goals remainder goal) (something : goal ≠ [])
    (other : goal.head? ≠ some ',') :
    ∃ front left, goal = front ++ left ∧ predicate goal = .error left ∧
      rejection = .predicate (String.ofList goal) (byteLength front) := by
  rcases verdict.of_next next with ⟨⟨_, nothing⟩, _⟩ | ⟨flawed, _⟩ | ⟨_, stopped⟩
  · exact absurd nothing something
  · rcases flawed with comma | ⟨_, nothing⟩
    · exact absurd comma other
    · exact absurd nothing something
  · exact stopped

end Verdict

end Verdict

/-! ## What is explained -/

theorem symbol_sign_iff {text : List Char}
    (starts : ∀ c ∈ text.head?, isBlank c = false) :
    (∃ behind, symbol [':', '-'] text = .ok ((), behind)) ↔ [':', '-'] <+: text := by
  constructor
  · rintro ⟨behind, sign⟩
    obtain ⟨gap, spaces, rfl⟩ := (symbol_eq_ok_iff (by decide)).mp sign
    cases gap with
    | nil => exact ⟨behind, rfl⟩
    | cons first gap =>
        have blank := isBlank_of_isSpace (spaces_iff.mp spaces first List.mem_cons_self)
        rw [starts first rfl] at blank
        cases blank
  · rintro ⟨behind, rfl⟩
    exact ⟨behind, (symbol_eq_ok_iff (by decide)).mpr ⟨[], spaces_nil, rfl⟩⟩

section Explain

variable {text : List Char} (starts : ∀ c ∈ text.head?, isBlank c = false)
include starts

theorem explain_of_sign (sign : [':', '-'] <+: text) (rest : List Char) :
    explain text rest = .rule (String.ofList text) .missingHead := by
  obtain ⟨behind, found⟩ := (symbol_sign_iff starts).mpr sign
  rw [explain, found]

theorem explain_of_unsigned (unsigned : ¬ [':', '-'] <+: text) (rest : List Char) :
    explain text rest =
      match ruleHead text with
      | .error _ => .stoppedAt text rest
      | .ok (_, body) => explainBody text body := by
  rw [explain]
  cases found : symbol [':', '-'] text with
  | error left => rfl
  | ok result => exact absurd ((symbol_sign_iff starts).mp ⟨_, found⟩) unsigned

theorem explain_of_headless (unsigned : ¬ [':', '-'] <+: text)
    (headless : ∀ body, ¬ Headed text body) (rest : List Char) :
    explain text rest = .stoppedAt text rest := by
  rw [explain_of_unsigned starts unsigned]
  cases found : ruleHead text with
  | error left => rfl
  | ok result => exact absurd (headed_iff.mpr ⟨_, found⟩) (headless result.2)

theorem explain_of_headed {body : List Char} (headed : Headed text body)
    (rest : List Char) : explain text rest = explainBody text body := by
  obtain ⟨head, found⟩ := headed_iff.mp headed
  rw [explain_of_unsigned starts headed.unsigned, found]

end Explain

section Body

variable {text body rest goal : List Char} {goals : List Predicate}

theorem explainBody_of_no_comma (leading : LeadingGoals body goals rest)
    (preceded : goals ≠ []) (other : (trimStart rest).head? ≠ some ',') :
    explainBody text body = .rule (String.ofList text) .missingComma := by
  rw [explainBody, leading.read preceded]
  dsimp only
  split
  · rename_i same
    exact absurd (by rw [same]; rfl) other
  · rfl

/-- Nothing is left of the next goal, or it is explained. -/
theorem explainGoal_unless_nil (text goal : List Char) (flaw : RuleFlaw) :
    (match goal with
      | [] => .rule (String.ofList text) flaw
      | goal => explainGoal text goal) =
      if goal = [] then .rule (String.ofList text) flaw else explainGoal text goal := by
  cases goal <;> rfl

/-- Behind a comma, or at the start of the body, the next goal is looked at. -/
theorem explainBody_of_next (leading : LeadingGoals body goals rest)
    (next : NextGoal goals (trimStart rest) goal)
    (stops : ∀ c ∈ body.getLast?, isBlank c = false) :
    explainBody text body =
      if goal = [] then
        .rule (String.ofList text) (if goals = [] then .emptyBody else .emptyGoal)
      else explainGoal text goal := by
  generalize found : trimStart rest = remainder at next
  cases next with
  | first =>
      obtain ⟨rfl, left, unread⟩ := leading.unread
      rw [← found, Text.trim_trimStart stops, explainBody, unread, if_pos rfl]
      exact explainGoal_unless_nil text _ .emptyBody
  | further first goals behind =>
      have preceded : first :: goals ≠ [] := List.cons_ne_nil _ _
      rw [explainBody, leading.read preceded, if_neg preceded]
      dsimp only
      rw [found]
      exact explainGoal_unless_nil text _ .emptyGoal

/-- A goal that begins with no predicate is rejected as it would be alone, unless it
begins with a comma. -/
theorem explainGoal_of_noPredicate (trimmed : trim goal = goal) (nonempty : goal ≠ [])
    {left : List Char} (stops : predicate goal = .error left) :
    explainGoal text goal =
      if goal.head? = some ',' then .rule (String.ofList text) .emptyGoal
      else .stoppedAt goal left := by
  rw [explainGoal, readGoal, trimmed, readTrimmed_of_error nonempty stops]

/-- A body is rejected for its first flaw, whatever may follow. -/
theorem verdict_explainBody (leading : LeadingGoals body goals rest)
    (spaced : PlainlySpaced body) (stops : ∀ c ∈ body.getLast?, isBlank c = false) :
    Verdict text goals (trimStart rest) (explainBody text body) := by
  by_cases goesOn : ∃ goal, NextGoal goals (trimStart rest) goal
  · obtain ⟨goal, next⟩ := goesOn
    obtain ⟨left, unread⟩ := noPredicate_iff.mp (next.noPredicate leading spaced)
    rw [explainBody_of_next leading next stops]
    by_cases nothing : goal = []
    · rw [if_pos nothing]
      split
      · rename_i alone
        exact .emptyBody next alone nothing
      · rename_i preceded
        exact .emptyGoal next (.inr ⟨preceded, nothing⟩)
    · rw [if_neg nothing, explainGoal_of_noPredicate next.trimmed nothing unread]
      split
      · rename_i comma
        exact .emptyGoal next (.inl comma)
      · rename_i other
        obtain ⟨front, rfl⟩ := predicate_suffix unread
        rw [stoppedAt_append]
        exact .badGoal next nothing other unread
  · cases goals with
    | nil => exact absurd ⟨_, .first _⟩ goesOn
    | cons first goals =>
        have preceded : first :: goals ≠ [] := List.cons_ne_nil _ _
        have other : (trimStart rest).head? ≠ some ',' := by
          intro comma
          obtain ⟨behind, split⟩ := List.head?_eq_some_iff.mp comma
          rw [split] at goesOn
          exact goesOn ⟨_, .further _ _ behind⟩
        rw [explainBody_of_no_comma leading preceded other]
        exact .missingComma preceded other

end Body

/-- A clause that cannot be read, although its text is not blank, is explained. -/
theorem readClause_error {text middle : List Char} (trimmed : Trimmed text middle)
    (nonempty : middle ≠ []) {rejection : Rejection}
    (rejected : readClause text = .error rejection) :
    ∃ left, rejection = explain middle left := by
  rw [readClause, trimmed_iff.mp trimmed, if_neg nonempty] at rejected
  cases found : readWhole clause skipPeriod middle with
  | ok c =>
      rw [found] at rejected
      cases rejected
  | error left =>
      rw [found] at rejected
      cases rejected
      exact ⟨left, rfl⟩

theorem read_of_noPredicate {goal left : List Char} (trimmed : trim goal = goal)
    (nonempty : goal ≠ []) (unread : predicate goal = .error left) :
    Predicate.read (String.ofList goal) = .error (.stoppedAt goal left) := by
  rw [Predicate.read, String.toList_ofList, readPredicate, trimmed,
    readTrimmed_of_error nonempty unread]

section Whole

variable {text middle : List Char} (trimmed : Trimmed text middle)
include trimmed

/-- A rule with a head is rejected for the first flaw of its body. -/
theorem verdict_explain (spaced : PlainlySpaced middle) {body rest : List Char}
    {goals : List Predicate} (headed : Headed middle body)
    (leading : LeadingGoals body goals rest) (left : List Char) :
    Verdict middle goals (trimStart rest) (explain middle left) := by
  obtain ⟨starts, stops⟩ := trimmed.ends
  rw [explain_of_headed starts headed]
  refine verdict_explainBody leading (spaced.of_infix headed.suffix.isInfix) ?_
  obtain ⟨front, rfl⟩ := headed.suffix
  exact fun c final => stops c (List.mem_getLast?_append_of_mem_getLast? final)

/-- There is a sign without a head, there is no head, or the body has a flaw. -/
theorem explain_cases (spaced : PlainlySpaced middle) (left : List Char) :
    ([':', '-'] <+: middle ∧
      explain middle left = .rule (String.ofList middle) .missingHead) ∨
    (¬ [':', '-'] <+: middle ∧ (∀ body, ¬ Headed middle body) ∧
      explain middle left = .stoppedAt middle left) ∨
    (¬ [':', '-'] <+: middle ∧ ∃ body goals rest, Headed middle body ∧
      LeadingGoals body goals rest ∧
      Verdict middle goals (trimStart rest) (explain middle left)) := by
  obtain ⟨starts, _⟩ := trimmed.ends
  by_cases sign : [':', '-'] <+: middle
  · exact .inl ⟨sign, explain_of_sign starts sign left⟩
  by_cases isHeaded : ∃ body, Headed middle body
  · obtain ⟨body, headed⟩ := isHeaded
    obtain ⟨goals, rest, leading⟩ := exists_leadingGoals body
    exact .inr (.inr ⟨sign, body, goals, rest, headed, leading,
      verdict_explain trimmed spaced headed leading left⟩)
  · have headless : ∀ body, ¬ Headed middle body := not_exists.mp isHeaded
    exact .inr (.inl ⟨sign, headless, explain_of_headless starts sign headless left⟩)

theorem explain_ne_empty (spaced : PlainlySpaced middle) (left : List Char) :
    explain middle left ≠ .empty := by
  rcases explain_cases trimmed spaced left with
    ⟨_, same⟩ | ⟨_, _, same⟩ | ⟨_, _, _, _, _, _, verdict⟩
  · rw [same]
    exact nofun
  · rw [same]
    exact nofun
  · exact verdict.ne_empty

/-- Behind goals that were read, no goal turns out to be in order. -/
theorem message_of_explain (spaced : PlainlySpaced middle) {left : List Char}
    {shown : String} {flaw : RuleFlaw} (isRule : explain middle left = .rule shown flaw) :
    flaw.message ≠ RuleFlaw.malformedBody.message := by
  rcases explain_cases trimmed spaced left with
    ⟨_, same⟩ | ⟨_, _, same⟩ | ⟨_, _, _, _, _, _, verdict⟩
  · rw [same] at isRule
    cases isRule
    decide
  · rw [same] at isRule
    cases isRule
  · exact (verdict.flaw_ne isRule).2

theorem explain_eq_missingHead_iff (spaced : PlainlySpaced middle) (left : List Char) :
    explain middle left = .rule (String.ofList middle) .missingHead ↔
      [':', '-'] <+: middle := by
  rcases explain_cases trimmed spaced left with
    ⟨sign, same⟩ | ⟨unsigned, _, same⟩ | ⟨unsigned, _, _, _, _, _, verdict⟩
  · exact iff_of_true same sign
  · rw [same]
    exact iff_of_false nofun unsigned
  · exact iff_of_false (fun same => (verdict.flaw_ne same).1 rfl) unsigned

theorem exists_position_of_headless (unsigned : ¬ [':', '-'] <+: middle)
    (headless : ∀ body, ¬ Headed middle body) (left : List Char) :
    ∃ position, explain middle left = .predicate (String.ofList middle) position :=
  ⟨_, explain_of_headless trimmed.ends.1 unsigned headless left⟩

end Whole

/-- A bad goal is a part of the text, and it is rejected as it would be alone. -/
theorem Verdict.read_goal {middle body rest goal : List Char} {goals : List Predicate}
    {rejection : Rejection}
    (verdict : Verdict middle goals (trimStart rest) rejection)
    (headed : Headed middle body) (leading : LeadingGoals body goals rest)
    (next : NextGoal goals (trimStart rest) goal) (something : goal ≠ [])
    (other : goal.head? ≠ some ',') :
    goal <:+: middle ∧ NoPredicate goal ∧
      Predicate.read (String.ofList goal) = .error rejection ∧
      ∃ front left, goal = front ++ left ∧ predicate goal = .error left ∧
        rejection = .predicate (String.ofList goal) (byteLength front) := by
  obtain ⟨front, left, split, unread, same⟩ := verdict.eq_predicate next something other
  have within : goal <:+: middle := by
    calc goal
        <:+: trimStart rest := next.within
      _ <:+: rest := (List.dropWhile_suffix _).isInfix
      _ <:+: body := leading.suffix.isInfix
      _ <:+: middle := headed.suffix.isInfix
  have isRead : Predicate.read (String.ofList goal) = .error rejection := by
    rw [read_of_noPredicate next.trimmed something unread, same, split,
      stoppedAt_append]
  exact ⟨within, noPredicate_iff.mpr ⟨left, unread⟩, isRead, front, left, split, unread,
    same⟩

end Statement

namespace Example

/-- A rule whose second goal has no parentheses, with white space around it. -/
def bare : String :=
  "\ta(X) :- b(X) , c X. \r\n"

def bareRule : List Char :=
  "a(X) :- b(X) , c X.".toList

/-- What stands behind the sign of the rule. -/
def bareBody : List Char :=
  " b(X) , c X.".toList

def bareRest : List Char :=
  " , c X.".toList

def bareGoal : List Char :=
  "c X".toList

end Example

namespace Statement

open Text (trim trimStart Trimmed trimmed_iff byteLength dropLastIf)
open Example (bare bareRule bareBody bareRest bareGoal)

/--
A clause that cannot be read, in a text that is not blank and has only such white
space as may stand between tokens, is rejected for its first flaw.  A sign `:-` in
front is a missing head; without it and without a head the whole text is no predicate.
Behind a head, the goals that stand at the start of the body are in order.  If there
are any, a comma has to follow; if there is none it is missing.  Else the next goal,
without white space around it and a period at its end, is empty, which makes an
empty body if it is the first one, or begins with a comma, which makes an empty goal,
or is rejected itself, as it would be alone.  It never turns out to be in order.
-/
theorem rejection_explained {text : String} {middle : List Char}
    (trimmed : Trimmed text.toList middle) (nonempty : middle ≠ [])
    (spaced : PlainlySpaced middle) {rejection : Rejection}
    (rejected : Clause.read text = .error rejection) :
    rejection ≠ .empty ∧
    (∀ shown flaw, rejection = .rule shown flaw →
      flaw.message ≠ RuleFlaw.malformedBody.message) ∧
    (rejection = .rule (String.ofList middle) .missingHead ↔ [':', '-'] <+: middle) ∧
    (¬ [':', '-'] <+: middle → (∀ body, ¬ Headed middle body) →
      ∃ position, rejection = .predicate (String.ofList middle) position) ∧
    (∀ body, Headed middle body → ∃ goals rest, LeadingGoals body goals rest) ∧
    (∀ body goals rest, Headed middle body → LeadingGoals body goals rest →
      (goals ≠ [] → (rejection = .rule (String.ofList middle) .missingComma ↔
        (trimStart rest).head? ≠ some ',')) ∧
      ∀ goal, NextGoal goals (trimStart rest) goal →
        (rejection = .rule (String.ofList middle) .emptyBody ↔
          goals = [] ∧ goal = []) ∧
        (rejection = .rule (String.ofList middle) .emptyGoal ↔
          goal.head? = some ',' ∨ goals ≠ [] ∧ goal = []) ∧
        (goal ≠ [] → goal.head? ≠ some ',' →
          goal <:+: middle ∧ NoPredicate goal ∧
          Predicate.read (String.ofList goal) = .error rejection ∧
          ∃ front left, goal = front ++ left ∧ predicate goal = .error left ∧
            rejection = .predicate (String.ofList goal) (byteLength front))) := by
  obtain ⟨left, rfl⟩ := readClause_error trimmed nonempty rejected
  refine ⟨explain_ne_empty trimmed spaced left,
    fun _ _ isRule => message_of_explain trimmed spaced isRule,
    explain_eq_missingHead_iff trimmed spaced left,
    fun unsigned headless => exists_position_of_headless trimmed unsigned headless left,
    fun body _ => exists_leadingGoals body, fun body goals rest headed leading => ?_⟩
  have verdict := verdict_explain trimmed spaced headed leading left
  exact ⟨verdict.missingComma_iff, fun goal next => ⟨verdict.emptyBody_iff next,
    verdict.emptyGoal_iff next, verdict.read_goal headed leading next⟩⟩

/-- Behind a goal and a comma stands a goal without parentheses, which is rejected at
its blank. -/
theorem rejection_explained_bare :
    (Trimmed bare.toList bareRule ∧ bareRule ≠ [] ∧ PlainlySpaced bareRule ∧
      Clause.read bare = .error (.predicate "c X" 2)) ∧
    (Headed bareRule bareBody ∧
      LeadingGoals bareBody [⟨"b", [.var ⟨"X"⟩]⟩] bareRest ∧
      NextGoal [⟨"b", [.var ⟨"X"⟩]⟩] (trimStart bareRest) bareGoal ∧
      bareGoal ≠ [] ∧ bareGoal.head? ≠ some ',') ∧
    bareGoal <:+: bareRule ∧ NoPredicate bareGoal ∧
    Predicate.read "c X" = .error (.predicate "c X" 2) := by
  have trimmed : Trimmed bare.toList bareRule := trimmed_iff.mpr (by decide +kernel)
  have spaced : PlainlySpaced bareRule := by decide +kernel
  have rejected : Clause.read bare = .error (.predicate "c X" 2) := by decide +kernel
  have headed : Headed bareRule bareBody :=
    headed_iff.mpr ⟨⟨"a", [.var ⟨"X"⟩]⟩, by decide +kernel⟩
  have leading : LeadingGoals bareBody [⟨"b", [.var ⟨"X"⟩]⟩] bareRest :=
    leadingGoals_iff.mpr (.inl (by decide +kernel))
  have next : NextGoal [⟨"b", [.var ⟨"X"⟩]⟩] (trimStart bareRest) bareGoal := by
    have further := NextGoal.further ⟨"b", [.var ⟨"X"⟩]⟩ [] " c X.".toList
    have split : ',' :: " c X.".toList = trimStart bareRest := by decide +kernel
    have cut : trim (dropLastIf '.' (trim " c X.".toList)) = bareGoal := by
      decide +kernel
    rwa [split, cut] at further
  have something : bareGoal ≠ [] := by decide
  have other : bareGoal.head? ≠ some ',' := by decide
  obtain ⟨_, _, _, _, _, flaws⟩ :=
    rejection_explained trimmed (by decide) spaced rejected
  obtain ⟨_, goals⟩ := flaws bareBody _ bareRest headed leading
  obtain ⟨_, _, bad⟩ := goals bareGoal next
  obtain ⟨within, noPredicate, alone, _⟩ := bad something other
  exact ⟨⟨trimmed, by decide, spaced, rejected⟩,
    ⟨headed, leading, next, something, other⟩, within, noPredicate, alone⟩

-- White space that may not stand between tokens hides a goal that is in order.
example : Clause.read "a(X) :- b(X),\u00a0c(X)" =
    .error (.rule "a(X) :- b(X),\u00a0c(X)" .malformedBody) := by
  decide +kernel

end Statement

end HornLogic
