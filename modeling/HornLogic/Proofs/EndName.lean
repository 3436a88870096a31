import HornLogic.Proofs.Recast

/-!
# Names of answers

An answer is the resolved query under other names.  The ends of chains are named
from left to right: an end that has no name yet takes the one of the variable at
hand.  So each end has one name, the first variable of the query that reaches it,
and no two ends have the same one, although a name may itself be the end of another
argument.
-/

namespace HornLogic

namespace Substitution

/-! ## The first variable to reach an end -/

/-- The variable is an argument whose walk ends on the given variable, and no
variable in front of it is. -/
def FirstReaching (s : Substitution) (last : Variable) (args : List Term)
    (v : Variable) : Prop :=
  ∃ before behind, args = before ++ .var v :: behind ∧
    s.walk (.var v) = .var last ∧ ∀ w, .var w ∈ before → s.walk (.var w) ≠ .var last

variable {s : Substitution} {last v : Variable}

theorem firstReaching_cons_reaches (reaches : s.walk (.var v) = .var last)
    (rest : List Term) : s.firstReaching last (.var v :: rest) = some v := by
  rw [firstReaching, if_pos reaches]

theorem firstReaching_cons_misses (misses : s.walk (.var v) ≠ .var last)
    (rest : List Term) :
    s.firstReaching last (.var v :: rest) = s.firstReaching last rest := by
  rw [firstReaching, if_neg misses]

theorem firstReaching_append (front back : List Term) :
    s.firstReaching last (front ++ back) =
      (s.firstReaching last front).or (s.firstReaching last back) := by
  induction front with
  | nil => rfl
  | cons arg front ih =>
      cases arg with
      | const name => exact ih
      | var w =>
          by_cases reaches : s.walk (.var w) = .var last
          · rw [List.cons_append, firstReaching_cons_reaches reaches,
              firstReaching_cons_reaches reaches, Option.some_or]
          · rw [List.cons_append, firstReaching_cons_misses reaches,
              firstReaching_cons_misses reaches, ih]

theorem firstReaching_first {args : List Term}
    (found : s.firstReaching last args = some v) : s.FirstReaching last args v := by
  induction args with
  | nil => cases found
  | cons arg rest ih =>
      cases arg with
      | const name =>
          obtain ⟨before, behind, rfl, reaches, misses⟩ := ih found
          exact ⟨.const name :: before, behind, rfl, reaches, by simpa using misses⟩
      | var w =>
          by_cases here : s.walk (.var w) = .var last
          · rw [firstReaching_cons_reaches here, Option.some.injEq] at found
            exact ⟨[], rest, by rw [found, List.nil_append], found ▸ here, by simp⟩
          · rw [firstReaching_cons_misses here] at found
            obtain ⟨before, behind, rfl, reaches, misses⟩ := ih found
            exact ⟨.var w :: before, behind, rfl, reaches, by simpa using ⟨here, misses⟩⟩

/-- An end of the resolved query has a variable of the query that reaches it. -/
theorem exists_firstReaching {query : Predicate}
    (isEnd : last ∈ (s.resolve query).vars) :
    ∃ v, s.firstReaching last query.args = some v := by
  obtain ⟨arg, member, ends⟩ := List.mem_map.mp (Predicate.mem_vars.mp isEnd)
  cases arg with
  | const name => cases ends
  | var w => exact firstReaching_isSome member ends

/-! ## Naming from left to right -/

/-- Answer arguments one after the other, with the names of the ends so far.  An end
keeps its name; one without a name takes the variable at hand. -/
def nameEnds (s : Substitution) (named : List (Variable × Variable)) :
    List Term → List Term
  | [] => []
  | arg :: rest =>
      match arg, s.walk arg with
      | .var v, .var last =>
          let name := (named.lookup last).getD v
          .var name :: s.nameEnds ((last, name) :: named) rest
      | _, value => value :: s.nameEnds named rest

variable {named : List (Variable × Variable)} {arg : Term} {rest : List Term}

theorem nameEnds_cons_of_walk_const {name : String}
    (ends : s.walk arg = .const name) :
    s.nameEnds named (arg :: rest) = .const name :: s.nameEnds named rest := by
  cases arg with
  | const other =>
      cases ends
      rfl
  | var v => simp [nameEnds, ends]

theorem nameEnds_cons_of_walk_var (ends : s.walk (.var v) = .var last) :
    s.nameEnds named (.var v :: rest) =
      .var ((named.lookup last).getD v) ::
        s.nameEnds ((last, (named.lookup last).getD v) :: named) rest := by
  simp [nameEnds, ends]

/-- The names so far are those of the ends of the arguments in front. -/
def Names (s : Substitution) (named : List (Variable × Variable))
    (front : List Term) : Prop :=
  ∀ last, named.lookup last = s.firstReaching last front

namespace Names

variable {front : List Term} (soFar : s.Names named front)
include soFar

/-- An argument that ends on a constant needs no name. -/
theorem after_const {name : String} (ends : s.walk arg = .const name) :
    s.Names named (front ++ [arg]) := by
  intro last
  rw [firstReaching_append, soFar]
  cases arg <;> simp [firstReaching, ends]

/-- The end of an argument keeps its name or takes the one of the argument. -/
theorem firstReaching_eq (ends : s.walk (.var v) = .var last) :
    s.firstReaching last (front ++ [.var v]) = some ((named.lookup last).getD v) := by
  rw [firstReaching_append, ← soFar, firstReaching_cons_reaches ends]
  cases named.lookup last <;> rfl

theorem after_var (ends : s.walk (.var v) = .var last) :
    s.Names ((last, (named.lookup last).getD v) :: named) (front ++ [.var v]) := by
  intro other
  by_cases same : other = last
  · rw [same, List.lookup_cons_self, soFar.firstReaching_eq ends]
  · have misses : s.walk (.var v) ≠ .var other := by
      rw [ends]
      exact fun eq => same (Term.var.inj eq).symm
    rw [firstReaching_append, ← soFar, List.lookup_cons, beq_false_of_ne same,
      firstReaching_cons_misses misses]
    exact (Option.or_none).symm

/-- Naming the ends from any place on gives the rest of the answer. -/
theorem nameEnds_eq_map :
    s.nameEnds named rest = rest.map (s.answerTerm (front ++ rest)) := by
  induction rest generalizing named front with
  | nil => rfl
  | cons arg rest ih =>
      rw [List.map_cons, List.append_cons]
      cases ends : s.walk arg with
      | const name =>
          rw [nameEnds_cons_of_walk_const ends, answerTerm_of_walk_const ends,
            ih (soFar.after_const ends)]
      | var last =>
          cases arg with
          | const name => cases ends
          | var v =>
              rw [nameEnds_cons_of_walk_var ends, answerTerm_of_walk_var ends,
                ih (soFar.after_var ends), firstReaching_append,
                soFar.firstReaching_eq ends]
              rfl

end Names

/-- Naming the ends from left to right gives the answer. -/
theorem args_answer (s : Substitution) (query : Predicate) :
    (s.answer query).args = s.nameEnds [] query.args := by
  have unnamed : s.Names [] [] := fun _ => rfl
  exact unnamed.nameEnds_eq_map.symm

/-! ## The renaming -/

def endName (s : Substitution) (query : Predicate) (last : Variable) : Variable :=
  (s.firstReaching last query.args).getD last

variable {query : Predicate}

theorem endName_first (isEnd : last ∈ (s.resolve query).vars) :
    s.FirstReaching last query.args (s.endName query last) := by
  obtain ⟨v, found⟩ := exists_firstReaching isEnd
  rw [endName, found]
  exact firstReaching_first found

theorem FirstReaching.mem_vars (first : s.FirstReaching last query.args v) :
    v ∈ query.vars := by
  obtain ⟨before, behind, split, _⟩ := first
  rw [Predicate.mem_vars, split]
  exact List.mem_append_right _ List.mem_cons_self

/-- Walking back from a name, one is at the end it was given to. -/
theorem walk_endName (isEnd : last ∈ (s.resolve query).vars) :
    s.walk (.var (s.endName query last)) = .var last := by
  obtain ⟨_, _, _, reaches, _⟩ := endName_first isEnd
  exact reaches

theorem injOn_endName (s : Substitution) (query : Predicate) :
    Set.InjOn (s.endName query) {last | last ∈ (s.resolve query).vars} := by
  intro first isEnd second isEnd' same
  have walks := walk_endName isEnd
  rw [same, walk_endName isEnd', Term.var.injEq] at walks
  exact walks.symm

theorem answerTerm_eq_relabel (member : arg ∈ query.args) :
    s.answerTerm query.args arg = (s.walk arg).relabel (s.endName query) := by
  cases ends : s.walk arg with
  | const name => exact answerTerm_of_walk_const ends _
  | var last =>
      cases arg with
      | const name => cases ends
      | var v =>
          obtain ⟨name, found⟩ := firstReaching_isSome member ends
          rw [answerTerm_of_walk_var ends, Term.relabel_var, endName, found]
          rfl

theorem answer_eq_relabel (s : Substitution) (query : Predicate) :
    s.answer query = (s.resolve query).relabel (s.endName query) := by
  rw [answer, resolve, Predicate.relabel, List.map_map]
  exact congrArg _ (List.map_congr_left fun arg => answerTerm_eq_relabel)

/-- What stands at a place of the answer is the end of the argument's walk, by its
name. -/
theorem getElem?_answer (s : Substitution) (query : Predicate) (i : Nat) :
    (s.answer query).args[i]? =
      ((s.resolve query).args[i]?).map (Term.relabel (s.endName query)) := by
  rw [answer_eq_relabel, Predicate.relabel, List.getElem?_map]

theorem getElem?_answer_const {name : String} {i : Nat} :
    (s.answer query).args[i]? = some (.const name) ↔
      (s.resolve query).args[i]? = some (.const name) := by
  rw [getElem?_answer, Option.map_eq_some_iff]
  constructor
  · rintro ⟨term, found, same⟩
    cases term with
    | const other => rw [found, ← same, Term.relabel_const]
    | var last => cases same
  · exact fun found => ⟨_, found, rfl⟩

theorem getElem?_answer_var {i : Nat} :
    (s.answer query).args[i]? = some (.var v) ↔
      ∃ last, (s.resolve query).args[i]? = some (.var last) ∧
        s.endName query last = v := by
  rw [getElem?_answer, Option.map_eq_some_iff]
  constructor
  · rintro ⟨term, found, same⟩
    cases term with
    | const other => cases same
    | var last => exact ⟨last, found, Term.var.inj same⟩
  · rintro ⟨last, found, rfl⟩
    exact ⟨_, found, rfl⟩

/-- Two places of an answer share a variable exactly if the walks of the arguments
there end on the same one. -/
theorem answer_shares_iff {i j : Nat} {w : Variable}
    (first : (s.answer query).args[i]? = some (.var v))
    (second : (s.answer query).args[j]? = some (.var w)) :
    v = w ↔ (s.resolve query).args[i]? = (s.resolve query).args[j]? := by
  obtain ⟨last, found, rfl⟩ := getElem?_answer_var.mp first
  obtain ⟨last', found', rfl⟩ := getElem?_answer_var.mp second
  have isEnd := Predicate.mem_vars.mpr (List.mem_of_getElem? found)
  have isEnd' := Predicate.mem_vars.mpr (List.mem_of_getElem? found')
  rw [found, found', Option.some.injEq, Term.var.injEq]
  exact (s.injOn_endName query).eq_iff isEnd isEnd'

end Substitution

namespace Example

/-- A cycle of two variables and a variable that two others are bound to. -/
def crossed : Substitution :=
  .ofList [(⟨"P"⟩, .var ⟨"Q"⟩), (⟨"Q"⟩, .var ⟨"P"⟩), (⟨"V"⟩, .var ⟨"Z"⟩),
    (⟨"W"⟩, .var ⟨"Z"⟩)]

def crossing : Predicate :=
  ⟨"p", [.var ⟨"P"⟩, .var ⟨"Q"⟩, .var ⟨"W"⟩, .var ⟨"V"⟩, .var ⟨"Z"⟩, .const "a"]⟩

theorem resolve_crossing : crossed.resolve crossing =
    ⟨"p", [.var ⟨"Q"⟩, .var ⟨"P"⟩, .var ⟨"Z"⟩, .var ⟨"Z"⟩, .var ⟨"Z"⟩, .const "a"]⟩ := by
  decide

theorem answer_crossing : crossed.answer crossing =
    ⟨"p", [.var ⟨"P"⟩, .var ⟨"Q"⟩, .var ⟨"W"⟩, .var ⟨"W"⟩, .var ⟨"W"⟩, .const "a"]⟩ := by
  decide

end Example

namespace Substitution

open Example (crossed crossing resolve_crossing answer_crossing)

/--
The answer to a query is the resolved query under other names, whatever the
bindings are, cycles included.  No two ends have the same name, and each has the
name of the first variable of the query whose walk ends there.  So two places of
the answer have the same variable exactly if the walks of the arguments there end
on the same one, and its constants are those of the resolved query.  These are also
the names that ends get from left to right, each the first time it is reached.
-/
theorem answer_renames_resolve (s : Substitution) (query : Predicate) :
    (∃ names : Variable → Variable,
      Set.InjOn names {last | last ∈ (s.resolve query).vars} ∧
      (∀ last ∈ (s.resolve query).vars, names last ∈ query.vars ∧
        s.FirstReaching last query.args (names last)) ∧
      s.answer query = (s.resolve query).relabel names) ∧
    (∀ (i j : Nat) (a b : Term) (v w : Variable),
      query.args[i]? = some a → query.args[j]? = some b →
      (s.answer query).args[i]? = some (.var v) →
      (s.answer query).args[j]? = some (.var w) →
        (v = w ↔ s.walk a = s.walk b)) ∧
    (∀ (i : Nat) (name : String),
      (s.answer query).args[i]? = some (.const name) ↔
        (s.resolve query).args[i]? = some (.const name)) ∧
    (s.answer query).args = s.nameEnds [] query.args := by
  refine ⟨⟨s.endName query, s.injOn_endName query, fun last isEnd => ?_,
    s.answer_eq_relabel query⟩, fun i j a b v w here there first second => ?_,
    fun _ _ => getElem?_answer_const, s.args_answer query⟩
  · exact ⟨(endName_first isEnd).mem_vars, endName_first isEnd⟩
  · rw [answer_shares_iff first second, resolve, List.getElem?_map,
      List.getElem?_map, here, there, Option.map_some, Option.map_some,
      Option.some.injEq]

/-- On a cycle each variable ends on the other one, so that both names are ends
themselves; three more arguments share one end and one name. -/
theorem answer_renames_resolve_crossing :
    (∃ names : Variable → Variable, names ⟨"Q"⟩ = ⟨"P"⟩ ∧ names ⟨"P"⟩ = ⟨"Q"⟩ ∧
      names ⟨"Z"⟩ = ⟨"W"⟩ ∧
      Set.InjOn names {last | last ∈ (crossed.resolve crossing).vars}) ∧
    (crossing.args[2]? = some (.var ⟨"W"⟩) ∧ crossing.args[4]? = some (.var ⟨"Z"⟩) ∧
      (crossed.answer crossing).args[2]? = some (.var ⟨"W"⟩) ∧
      (crossed.answer crossing).args[4]? = some (.var ⟨"W"⟩) ∧
      crossed.walk (.var ⟨"W"⟩) = crossed.walk (.var ⟨"Z"⟩)) ∧
    (crossed.resolve crossing).args[5]? = some (.const "a") := by
  obtain ⟨⟨names, injective, _, same⟩, shares, constants, _⟩ :=
    answer_renames_resolve crossed crossing
  have third : (crossed.answer crossing).args[2]? = some (.var ⟨"W"⟩) := by
    rw [answer_crossing]
    rfl
  have fifth : (crossed.answer crossing).args[4]? = some (.var ⟨"W"⟩) := by
    rw [answer_crossing]
    rfl
  have sixth : (crossed.answer crossing).args[5]? = some (.const "a") := by
    rw [answer_crossing]
    rfl
  rw [answer_crossing, resolve_crossing] at same
  simp only [Predicate.relabel, List.map_cons, List.map_nil, Term.relabel_var,
    Term.relabel_const, Predicate.mk.injEq, List.cons.injEq, Term.var.injEq,
    true_and, and_true] at same
  obtain ⟨ofQ, ofP, ofZ, _⟩ := same
  exact ⟨⟨names, ofQ.symm, ofP.symm, ofZ.symm, injective⟩,
    ⟨rfl, rfl, third, fifth, (shares 2 4 _ _ _ _ rfl rfl third fifth).mp rfl⟩,
    (constants 5 "a").mp sixth⟩

end Substitution

end HornLogic
