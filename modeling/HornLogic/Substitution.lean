import HornLogic.Predicate

/-!
# Substitutions

A substitution binds variables to terms.  Bindings are kept in the order in
which their variables were first bound; binding a variable again replaces the
term and keeps the place.  Nothing forbids chains or cycles of bindings, so
following them is bounded by their number.

`apply` replaces arguments by one step, `resolve` by following chains, and
`answer` also gives unbound ends the names that the query uses for them.
-/

namespace HornLogic

/-- A list of bindings with distinct variables. -/
structure Substitution where
  bindings : List (Variable × Term)
  distinct : (bindings.map Prod.fst).Nodup := by simp
deriving DecidableEq

namespace Substitution

def put (v : Variable) (term : Term) :
    List (Variable × Term) → List (Variable × Term)
  | [] => [(v, term)]
  | (w, old) :: rest =>
      if w = v then (v, term) :: rest else (w, old) :: put v term rest

/-- Binding a variable adds it to the variables unless it was there. -/
theorem map_fst_put (v : Variable) (term : Term)
    (bindings : List (Variable × Term)) :
    (put v term bindings).map Prod.fst =
      if v ∈ bindings.map Prod.fst then bindings.map Prod.fst
      else bindings.map Prod.fst ++ [v] := by
  induction bindings with
  | nil => simp [put]
  | cons binding rest ih =>
      obtain ⟨w, old⟩ := binding
      by_cases same : w = v
      · simp [put, same]
      · by_cases bound : v ∈ rest.map Prod.fst
        · rw [if_pos bound] at ih
          rw [if_pos (by rw [List.map_cons]; exact List.mem_cons_of_mem _ bound)]
          simp [put, same, ih]
        · rw [if_neg bound] at ih
          rw [if_neg (by
            rw [List.map_cons, List.mem_cons]
            exact fun either => either.elim (fun eq => same eq.symm) bound)]
          simp [put, same, ih]

/-- Binding a variable keeps the variables distinct. -/
theorem nodup_put {v : Variable} {term : Term}
    {bindings : List (Variable × Term)}
    (distinct : (bindings.map Prod.fst).Nodup) :
    ((put v term bindings).map Prod.fst).Nodup := by
  rw [map_fst_put]
  split
  · exact distinct
  · rename_i free
    exact List.nodup_append.2
      ⟨distinct, by simp, fun a bound b fresh same => by
        rw [List.mem_singleton] at fresh
        exact free (fresh ▸ same ▸ bound)⟩

def empty : Substitution :=
  ⟨[], by simp⟩

instance : Inhabited Substitution := ⟨empty⟩

/-- Bind a variable, replacing an earlier binding in its place. -/
def bind (s : Substitution) (v : Variable) (term : Term) : Substitution :=
  ⟨put v term s.bindings, nodup_put s.distinct⟩

def get? (s : Substitution) (v : Variable) : Option Term :=
  s.bindings.lookup v

def size (s : Substitution) : Nat :=
  s.bindings.length

def bindAll (s : Substitution) (pairs : List (Variable × Term)) : Substitution :=
  pairs.foldl (fun s pair => s.bind pair.1 pair.2) s

def ofList (pairs : List (Variable × Term)) : Substitution :=
  empty.bindAll pairs

/-- Extend a substitution by the bindings of another, which win. -/
def merged (s other : Substitution) : Substitution :=
  s.bindAll other.bindings

/-- Two substitutions that bind the same variables to the same terms. -/
def sameBindings (s t : Substitution) : Bool :=
  s.size == t.size && s.bindings.all fun binding => t.get? binding.1 == some binding.2

def applyTerm (s : Substitution) : Term → Term
  | .const name => .const name
  | .var v => (s.get? v).getD (.var v)

/-- Follow at most `steps` bindings, stopping where a step changes nothing. -/
def follow (s : Substitution) : Nat → Term → Term
  | 0, term => term
  | _ + 1, .const name => .const name
  | steps + 1, .var v =>
      match s.get? v with
      | none => .var v
      | some next => if next = .var v then .var v else s.follow steps next

/--
Follow bindings to a constant or to an unbound variable.  A chain that does
not turn back uses each binding at most once.
-/
def walk (s : Substitution) (term : Term) : Term :=
  s.follow (s.size + 1) term

/-- Replace every argument by one step. -/
def apply (s : Substitution) (p : Predicate) : Predicate :=
  ⟨p.name, p.args.map s.applyTerm⟩

/-- Replace every argument by the end of its chain. -/
def resolve (s : Substitution) (p : Predicate) : Predicate :=
  ⟨p.name, p.args.map s.walk⟩

/-- The first variable among some terms whose chain ends on a given variable. -/
def firstReaching (s : Substitution) (last : Variable) : List Term → Option Variable
  | [] => none
  | .const _ :: rest => s.firstReaching last rest
  | .var v :: rest =>
      if s.walk (.var v) = .var last then some v else s.firstReaching last rest

def answerTerm (s : Substitution) (query : List Term) (arg : Term) : Term :=
  match arg, s.walk arg with
  | .var v, .var last => .var ((s.firstReaching last query).getD v)
  | _, value => value

/--
The answer a substitution gives to a query: chains are followed, and an
unbound end takes the name of the first variable of the query that reaches it.
-/
def answer (s : Substitution) (query : Predicate) : Predicate :=
  ⟨query.name, query.args.map (s.answerTerm query.args)⟩

/-- The written form, as in `{X = a, Y = Z}`. -/
def text (s : Substitution) : String :=
  "\x7b" ++ ", ".intercalate (s.bindings.map fun binding =>
    binding.1.name ++ " = " ++ binding.2.name) ++ "\x7d"

end Substitution

end HornLogic
