import HornLogic.Search.Basic
import Mathlib.Data.List.Forall2

/-!
# Outcomes of search steps

Rules for reasoning about a search without looking into its runs: searches
form a monad, what a search that ends ensures of its value and of the
generation drawn last, and when a search ends at all.
-/

namespace HornLogic

namespace SearchLog

@[simp]
theorem empty_append (log : SearchLog) : ({} : SearchLog) ++ log = log := by
  obtain ⟨derivations, stats⟩ := log
  change (⟨[] ++ derivations, Stats.add {} stats⟩ : SearchLog) = _
  simp [Stats.add]

@[simp]
theorem append_empty (log : SearchLog) : log ++ ({} : SearchLog) = log := by
  obtain ⟨derivations, stats⟩ := log
  change (⟨derivations ++ [], Stats.add stats {}⟩ : SearchLog) = _
  simp [Stats.add]

theorem append_assoc (first second third : SearchLog) :
    first ++ second ++ third = first ++ (second ++ third) := by
  change (⟨first.derivations ++ second.derivations ++ third.derivations,
      Stats.add (Stats.add first.stats second.stats) third.stats⟩ : SearchLog) =
    ⟨first.derivations ++ (second.derivations ++ third.derivations),
      Stats.add first.stats (Stats.add second.stats third.stats)⟩
  simp [Stats.add, Nat.add_assoc, Nat.max_assoc]

/-- Nothing is put in front of derivations by the empty path. -/
@[simp]
theorem under_nil (log : SearchLog) : log.under [] = log := by
  simp [under]

def concat (logs : List SearchLog) : SearchLog :=
  logs.foldr (· ++ ·) {}

end SearchLog

namespace Search

variable {α β : Type}

theorem bind_eq_some {step : Search α} {next : α → Search β}
    {generation : Nat} {run : SearchRun β} :
    (step >>= next) generation = some run ↔
      ∃ first second, step generation = some first ∧
        next first.value first.generation = some second ∧
        run = { second with log := first.log ++ second.log } := by
  change Search.bind step next generation = some run ↔ _
  rw [Search.bind]
  constructor
  · intro ended
    cases hfirst : step generation with
    | none => simp [hfirst] at ended
    | some first =>
        cases hsecond : next first.value first.generation with
        | none => simp [hfirst, hsecond] at ended
        | some second =>
            simp only [hfirst, hsecond, Option.some.injEq] at ended
            exact ⟨first, second, rfl, hsecond, ended.symm⟩
  · rintro ⟨first, second, hfirst, hsecond, rfl⟩
    simp [hfirst, hsecond]

/-- Yielding a value in front of a step does nothing. -/
private theorem pure_bind_run (value : α) (next : α → Search β) :
    (pure value >>= next) = next value := by
  funext generation
  change Search.bind (Search.pure value) next generation = _
  simp only [Search.bind, Search.pure]
  cases next value generation with
  | none => rfl
  | some run => simp

/-- Yielding the value of a step does nothing. -/
private theorem id_map_run (step : Search α) : id <$> step = step := by
  funext generation
  change Search.bind step (fun value => Search.pure value) generation = _
  rw [Search.bind]
  cases step generation with
  | none => rfl
  | some run => simp [Search.pure]

/-- Steps may be grouped in any way. -/
private theorem bind_assoc_run {γ : Type} (step : Search α)
    (second : α → Search β) (third : β → Search γ) :
    (step >>= second >>= third) = step >>= fun value => second value >>= third := by
  funext generation
  change Search.bind (Search.bind step second) third generation =
    Search.bind step (fun value => Search.bind (second value) third) generation
  simp only [Search.bind]
  cases step generation with
  | none => rfl
  | some start =>
      dsimp only
      cases second start.value start.generation with
      | none => rfl
      | some middle =>
          dsimp only
          cases third middle.value middle.generation with
          | none => rfl
          | some last => simp [SearchLog.append_assoc]

instance : LawfulMonad Search :=
  LawfulMonad.mk' Search id_map_run pure_bind_run bind_assoc_run

/-- What is collected for a list was found for one of its elements, after the
elements in front of it. -/
theorem mem_each_run {search : α → Search (List β)} {inputs : List α}
    {generation : Nat} {run : SearchRun (List β)}
    (ended : each search inputs generation = some run) {b : β}
    (member : b ∈ run.value) :
    ∃ before a after first inner, inputs = before ++ a :: after ∧
      each search before generation = some first ∧
      search a first.generation = some inner ∧ b ∈ inner.value := by
  induction inputs generalizing generation run with
  | nil =>
      cases ended
      cases member
  | cons a rest ih =>
      obtain ⟨here, others, hhere, hothers, rfl⟩ := bind_eq_some.mp ended
      obtain ⟨more, last, hmore, hlast, rfl⟩ := bind_eq_some.mp hothers
      cases hlast
      rcases List.mem_append.mp member with found | later
      · exact ⟨[], a, rest, _, here, rfl, rfl, hhere, found⟩
      · obtain ⟨before, a', after, first, inner, split, hfirst, hinner, inside⟩ :=
          ih hmore later
        refine ⟨a :: before, a', after, _, inner, by rw [split]; rfl,
          bind_eq_some.mpr ⟨here, _, hhere,
            bind_eq_some.mpr ⟨first, _, hfirst, rfl, rfl⟩, rfl⟩, hinner, inside⟩

abbrev Gathered (search : α → Search (List β)) :
    List α → List (SearchRun (List β)) → Prop :=
  List.Forall₂ fun a run => ∃ generation, search a generation = some run

/-- What is collected for the elements of a list is put together from one run
for each of them. -/
theorem exists_gathered {search : α → Search (List β)} {inputs : List α}
    {generation : Nat} {run : SearchRun (List β)}
    (ended : each search inputs generation = some run) :
    ∃ runs, Gathered search inputs runs ∧
      run.value = runs.flatMap (·.value) ∧
      run.log = SearchLog.concat (runs.map (·.log)) := by
  induction inputs generalizing generation run with
  | nil =>
      cases ended
      exact ⟨[], .nil, rfl, rfl⟩
  | cons a rest ih =>
      obtain ⟨here, others, hhere, hothers, rfl⟩ := bind_eq_some.mp ended
      obtain ⟨more, last, hmore, hlast, rfl⟩ := bind_eq_some.mp hothers
      cases hlast
      obtain ⟨runs, gathered, value, log⟩ := ih hmore
      refine ⟨here :: runs, .cons ⟨_, hhere⟩ gathered, ?_, ?_⟩
      · rw [List.flatMap_cons, ← value]
      · rw [SearchLog.append_empty, log]
        rfl

/-- A goal is tried and counted, or given up and counted. -/
theorem enter_bind (settings : SearchSettings) (depth : Nat)
    (next : Bool → Search β) :
    enter settings depth >>= next =
      if settings.allows depth then
        count { goals := 1, deepest := depth } >>= fun _ => next true
      else
        count { cutoffs := 1 } >>= fun _ => next false := by
  rw [enter]
  split <;> simp

/-- An attempt is counted and its result handed on. -/
theorem attempt_bind (goal head : Predicate)
    (next : Option Substitution → Search β) :
    attempt goal head >>= next =
      count { attempted := 1,
              succeeded := if (goal.unify head).isSome then 1 else 0 } >>=
        fun _ => next (goal.unify head) := by
  simp [attempt]

/-! ## What a search ensures -/

/-- If the search ends, generations were only drawn, and the value and the
generation drawn last have the property. -/
def Ensures (search : Search α) (generation : Nat)
    (property : α → Nat → Prop) : Prop :=
  ∀ run, search generation = some run →
    generation ≤ run.generation ∧ property run.value run.generation

namespace Ensures

variable {generation : Nat} {property : α → Nat → Prop}

protected theorem pure {value : α} (holds : property value generation) :
    (pure value : Search α).Ensures generation property := by
  intro run ended
  cases ended
  exact ⟨Nat.le_refl _, holds⟩

theorem endless : (endless : Search α).Ensures generation property :=
  fun _ ended => nomatch ended

theorem bind {step : Search α} {next : α → Search β}
    {result : β → Nat → Prop} (first : step.Ensures generation property)
    (second : ∀ value drawn, generation ≤ drawn → property value drawn →
      (next value).Ensures drawn result) :
    (step >>= next).Ensures generation result := by
  intro run ended
  obtain ⟨start, rest, hstart, hrest, rfl⟩ := bind_eq_some.mp ended
  obtain ⟨drawn, holds⟩ := first start hstart
  obtain ⟨further, finally_⟩ := second _ _ drawn holds rest hrest
  exact ⟨Nat.le_trans drawn further, finally_⟩

theorem weaken {search : Search α} {weaker : α → Nat → Prop}
    (ensured : search.Ensures generation property)
    (implies : ∀ value drawn, generation ≤ drawn → property value drawn →
      weaker value drawn) :
    search.Ensures generation weaker := by
  intro run ended
  obtain ⟨drawn, holds⟩ := ensured run ended
  exact ⟨drawn, implies _ _ drawn holds⟩

theorem and {search : Search α} {other : α → Nat → Prop}
    (left : search.Ensures generation property)
    (right : search.Ensures generation other) :
    search.Ensures generation fun value last =>
      property value last ∧ other value last := by
  intro run ended
  obtain ⟨drawn, holds⟩ := left run ended
  exact ⟨drawn, holds, (right run ended).2⟩

theorem count_bind (stats : Stats) {next : Unit → Search β}
    {result : β → Nat → Prop} (rest : (next ()).Ensures generation result) :
    (count stats >>= next).Ensures generation result := by
  intro run ended
  obtain ⟨first, second, hfirst, hsecond, rfl⟩ := bind_eq_some.mp ended
  cases hfirst
  exact rest second hsecond

theorem record_bind (derivation : Derivation) {next : Unit → Search β}
    {result : β → Nat → Prop} (rest : (next ()).Ensures generation result) :
    (record derivation >>= next).Ensures generation result := by
  intro run ended
  obtain ⟨first, second, hfirst, hsecond, rfl⟩ := bind_eq_some.mp ended
  cases hfirst
  exact rest second hsecond

theorem freshGeneration_bind {next : Nat → Search β}
    {result : β → Nat → Prop}
    (rest : (next (generation + 1)).Ensures (generation + 1) result) :
    (freshGeneration >>= next).Ensures generation result := by
  intro run ended
  obtain ⟨first, second, hfirst, hsecond, rfl⟩ := bind_eq_some.mp ended
  cases hfirst
  obtain ⟨drawn, holds⟩ := rest second hsecond
  exact ⟨Nat.le_of_succ_le drawn, holds⟩

theorem under {search : Search α} (head : Predicate)
    (ensured : search.Ensures generation property) :
    (under head search).Ensures generation property := by
  intro run ended
  rw [Search.under, Option.map_eq_some_iff] at ended
  obtain ⟨inner, hinner, rfl⟩ := ended
  exact ensured inner hinner

/-- Results that are good when they are found and stay good later are good in
the collection for a list. -/
theorem each {search : α → Search (List β)} {good : β → Nat → Prop}
    (lasting : ∀ b drawn later, drawn ≤ later → good b drawn → good b later)
    {inputs : List α}
    (element : ∀ a ∈ inputs, ∀ drawn, generation ≤ drawn →
      (search a).Ensures drawn fun found last => ∀ b ∈ found, good b last) :
    (each search inputs).Ensures generation
      fun found last => ∀ b ∈ found, good b last := by
  induction inputs generalizing generation with
  | nil => exact .pure (List.forall_mem_nil _)
  | cons a rest ih =>
      refine bind (element a List.mem_cons_self generation (Nat.le_refl _)) ?_
      intro found drawn after holds
      refine bind (ih fun b member later beyond =>
        element b (List.mem_cons_of_mem _ member) later
          (Nat.le_trans after beyond)) ?_
      intro more last beyond others
      refine .pure fun b member => ?_
      rcases List.mem_append.mp member with here | there
      · exact lasting b drawn last beyond (holds b here)
      · exact others b there

/-- A search for each element of a list draws generations, if the searches
for the elements do. -/
theorem each_draws {search : α → Search (List β)} {inputs : List α}
    {any : α → List β → Nat → Prop}
    (element : ∀ a ∈ inputs, ∀ drawn, generation ≤ drawn →
      (search a).Ensures drawn (any a)) :
    (Search.each search inputs).Ensures generation fun _ _ => True := by
  have collected := each (fun (_ : β) _ _ _ _ => trivial)
    fun a member drawn after =>
      (element a member drawn after).weaken fun _ _ _ _ _ _ => trivial
  exact collected.weaken fun _ _ _ _ => trivial

/-- A result that is good when it is found for one element of a list, and stays
good, is among the collected ones.  The other elements only draw generations. -/
theorem each_exists {search : α → Search (List β)} {good : β → Nat → Prop}
    (lasting : ∀ b drawn later, drawn ≤ later → good b drawn → good b later)
    {inputs : List α} {any : α → List β → Nat → Prop}
    (element : ∀ a ∈ inputs, ∀ drawn, generation ≤ drawn →
      (search a).Ensures drawn (any a))
    {a : α} (member : a ∈ inputs)
    (finds : ∀ drawn, generation ≤ drawn →
      (search a).Ensures drawn fun found last => ∃ b ∈ found, good b last) :
    (Search.each search inputs).Ensures generation
      fun found last => ∃ b ∈ found, good b last := by
  induction inputs generalizing generation with
  | nil => cases member
  | cons first rest ih =>
      have later : ∀ drawn, generation ≤ drawn → ∀ b ∈ rest, ∀ further,
          drawn ≤ further → (search b).Ensures further (any b) :=
        fun drawn after b inside further beyond =>
          element b (List.mem_cons_of_mem _ inside) further
            (Nat.le_trans after beyond)
      rcases List.mem_cons.mp member with rfl | inside
      · refine bind (finds generation (Nat.le_refl _)) ?_
        rintro found drawn after ⟨b, here, holds⟩
        refine bind (each_draws (later drawn after)) ?_
        intro more last beyond _
        exact .pure ⟨b, List.mem_append_left _ here, lasting b _ _ beyond holds⟩
      · refine bind (element first List.mem_cons_self generation
          (Nat.le_refl _)) fun found drawn after _ => ?_
        refine bind (ih (later drawn after) inside fun further beyond =>
          finds further (Nat.le_trans after beyond)) ?_
        rintro more last _ ⟨b, there, holds⟩
        exact .pure ⟨b, List.mem_append_right _ there, holds⟩

end Ensures

/-! ## Searches that end -/

def Ends (search : Search α) : Prop :=
  ∀ generation, ∃ run, search generation = some run

namespace Ends

protected theorem pure (value : α) : (pure value : Search α).Ends :=
  fun _ => ⟨_, rfl⟩

theorem bind {step : Search α} {next : α → Search β} (first : step.Ends)
    (second : ∀ value, (next value).Ends) : (step >>= next).Ends := by
  intro generation
  obtain ⟨start, hstart⟩ := first generation
  obtain ⟨rest, hrest⟩ := second start.value start.generation
  exact ⟨_, bind_eq_some.mpr ⟨start, rest, hstart, hrest, rfl⟩⟩

theorem count (stats : Stats) : (count stats).Ends :=
  fun _ => ⟨_, rfl⟩

theorem record (derivation : Derivation) : (record derivation).Ends :=
  fun _ => ⟨_, rfl⟩

theorem freshGeneration : freshGeneration.Ends :=
  fun _ => ⟨_, rfl⟩

theorem under {search : Search α} (head : Predicate) (ends : search.Ends) :
    (under head search).Ends := by
  intro generation
  obtain ⟨run, ended⟩ := ends generation
  exact ⟨_, by rw [Search.under, ended]; rfl⟩

theorem each {search : α → Search (List β)} {inputs : List α}
    (ends : ∀ a ∈ inputs, (search a).Ends) : (each search inputs).Ends := by
  induction inputs with
  | nil => exact .pure _
  | cons a rest ih =>
      obtain ⟨first, others⟩ := List.forall_mem_cons.mp ends
      exact first.bind fun _ => (ih others).bind fun _ => .pure _

end Ends

/-! ## Searches that yield a value -/

def Yields (search : Search α) (generation : Nat) (value : α) : Prop :=
  ∃ run, search generation = some run ∧ generation ≤ run.generation ∧
    run.value = value

namespace Yields

variable {generation : Nat}

protected theorem pure (value : α) :
    (pure value : Search α).Yields generation value :=
  ⟨_, rfl, Nat.le_refl _, rfl⟩

theorem bind {step : Search α} {next : α → Search β} {a : α} {b : β}
    (first : step.Yields generation a)
    (second : ∀ drawn, generation ≤ drawn → (next a).Yields drawn b) :
    (step >>= next).Yields generation b := by
  obtain ⟨start, hstart, drawn, rfl⟩ := first
  obtain ⟨rest, hrest, further, rfl⟩ := second start.generation drawn
  exact ⟨_, bind_eq_some.mpr ⟨start, rest, hstart, hrest, rfl⟩,
    Nat.le_trans drawn further, rfl⟩

theorem freshGeneration_bind {next : Nat → Search β} {b : β}
    (rest : (next (generation + 1)).Yields (generation + 1) b) :
    (freshGeneration >>= next).Yields generation b := by
  obtain ⟨run, hrun, drawn, rfl⟩ := rest
  exact ⟨_, bind_eq_some.mpr ⟨_, run, rfl, hrun, rfl⟩,
    Nat.le_of_succ_le drawn, rfl⟩

theorem each_cons {search : α → Search (List β)} {a : α} {rest : List α}
    {found more : List β} (first : (search a).Yields generation found)
    (others : ∀ drawn, generation ≤ drawn →
      (each search rest).Yields drawn more) :
    (each search (a :: rest)).Yields generation (found ++ more) :=
  first.bind fun drawn after =>
    (others drawn after).bind fun _ _ => .pure (found ++ more)

end Yields

end Search

end HornLogic
