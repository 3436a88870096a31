import HornLogic.Proofs.Search.Outcome
import Mathlib.Data.List.Forall2

/-!
# Two searches side by side

Two searches are related when both end or neither does, their logs are
related, and so are their values.  The value relation may depend on the
generation that the left search drew last; the right search is taken from
every generation.
-/

namespace HornLogic

/-- A relation between logs that respects how logs are put together. -/
structure LogCongruence (logs : SearchLog → SearchLog → Prop) : Prop where
  refl : ∀ log, logs log log
  append : ∀ {first first' second second' : SearchLog}, logs first first' →
    logs second second' → logs (first ++ second) (first' ++ second')
  under : ∀ {log log' : SearchLog} (path : Derivation), logs log log' →
    logs (log.under path) (log'.under path)

/-- Equality of logs is such a relation. -/
theorem logCongruence_eq : LogCongruence Eq where
  refl _ := rfl
  append first second := by rw [first, second]
  under path same := by rw [same]

namespace Search

variable {α β α' β' : Type}

/-- The left search, from a generation on, and the right search, from any
generation on, have related outcomes. -/
structure Related (logs : SearchLog → SearchLog → Prop)
    (values : Nat → α → β → Prop) (left : Search α) (generation : Nat)
    (right : Search β) : Prop where
  forward : ∀ {run}, left generation = some run → ∀ other, ∃ run',
    right other = some run' ∧ generation ≤ run.generation ∧
      logs run.log run'.log ∧ values run.generation run.value run'.value
  backward : ∀ {other run'}, right other = some run' →
    ∃ run, left generation = some run

namespace Related

variable {logs : SearchLog → SearchLog → Prop}
  {values : Nat → α → β → Prop} {generation : Nat}

theorem endless : Related logs values endless generation endless where
  forward ended := nomatch ended
  backward ended := nomatch ended

theorem weaken {weaker : Nat → α → β → Prop} {left : Search α}
    {right : Search β} (related : Related logs values left generation right)
    (implies : ∀ drawn a b, generation ≤ drawn → values drawn a b →
      weaker drawn a b) :
    Related logs weaker left generation right where
  forward ended other := by
    obtain ⟨run', ended', drawn, log, value⟩ := related.forward ended other
    exact ⟨run', ended', drawn, log, implies _ _ _ drawn value⟩
  backward := related.backward

/-- The left search draws a generation that the right one does without. -/
theorem freshGeneration_bind {next : Nat → Search α} {right : Search β}
    (rest : Related logs values (next (generation + 1)) (generation + 1) right) :
    Related logs values (freshGeneration >>= next) generation right where
  forward ended other := by
    obtain ⟨start, run, hstart, hrun, rfl⟩ := bind_eq_some.mp ended
    cases hstart
    obtain ⟨run', ended', drawn, log, value⟩ := rest.forward hrun other
    exact ⟨run', ended', Nat.le_of_succ_le drawn, by simpa using log, value⟩
  backward ended := by
    obtain ⟨run, hrun⟩ := rest.backward ended
    exact ⟨_, bind_eq_some.mpr ⟨_, run, rfl, hrun, rfl⟩⟩

variable (congruence : LogCongruence logs)
include congruence

protected theorem pure {a : α} {b : β} (holds : values generation a b) :
    Related logs values (pure a) generation (pure b) where
  forward ended other := by
    cases ended
    exact ⟨_, rfl, Nat.le_refl _, congruence.refl _, holds⟩
  backward _ := ⟨_, rfl⟩

theorem bind {left : Search α} {right : Search β} {next : α → Search α'}
    {next' : β → Search β'} {results : Nat → α' → β' → Prop}
    (first : Related logs values left generation right)
    (second : ∀ drawn a b, generation ≤ drawn → values drawn a b →
      Related logs results (next a) drawn (next' b)) :
    Related logs results (left >>= next) generation (right >>= next') where
  forward ended other := by
    obtain ⟨start, rest, hstart, hrest, rfl⟩ := bind_eq_some.mp ended
    obtain ⟨start', hstart', drawn, log, value⟩ := first.forward hstart other
    obtain ⟨rest', hrest', further, log', value'⟩ :=
      (second _ _ _ drawn value).forward hrest start'.generation
    exact ⟨_, bind_eq_some.mpr ⟨start', rest', hstart', hrest', rfl⟩,
      Nat.le_trans drawn further, congruence.append log log', value'⟩
  backward ended := by
    obtain ⟨start', rest', hstart', hrest', rfl⟩ := bind_eq_some.mp ended
    obtain ⟨start, hstart⟩ := first.backward hstart'
    obtain ⟨same, hsame, drawn, log, value⟩ := first.forward hstart _
    rw [hsame, Option.some.injEq] at hstart'
    subst hstart'
    obtain ⟨rest, hrest⟩ := (second _ _ _ drawn value).backward hrest'
    exact ⟨_, bind_eq_some.mpr ⟨start, rest, hstart, hrest, rfl⟩⟩

/-- Both searches write the same into the log. -/
theorem write_bind {step : Search Unit} {log : SearchLog}
    (writes : ∀ drawn, step drawn = some ⟨(), log, drawn⟩)
    {next : Unit → Search α} {next' : Unit → Search β}
    (rest : Related logs values (next ()) generation (next' ())) :
    Related logs values (step >>= next) generation (step >>= next') where
  forward ended other := by
    obtain ⟨start, run, hstart, hrun, rfl⟩ := bind_eq_some.mp ended
    rw [writes] at hstart
    cases hstart
    obtain ⟨run', ended', drawn, further, value⟩ := rest.forward hrun other
    exact ⟨_, bind_eq_some.mpr ⟨_, run', writes other, ended', rfl⟩, drawn,
      congruence.append (congruence.refl _) further, value⟩
  backward ended := by
    obtain ⟨start', run', hstart', hrun', rfl⟩ := bind_eq_some.mp ended
    rw [writes] at hstart'
    cases hstart'
    obtain ⟨run, hrun⟩ := rest.backward hrun'
    exact ⟨_, bind_eq_some.mpr ⟨_, run, writes generation, hrun, rfl⟩⟩

theorem count_bind (stats : Stats) {next : Unit → Search α}
    {next' : Unit → Search β}
    (rest : Related logs values (next ()) generation (next' ())) :
    Related logs values (count stats >>= next) generation
      (count stats >>= next') :=
  write_bind congruence (fun _ => rfl) rest

theorem record_bind (derivation : Derivation) {next : Unit → Search α}
    {next' : Unit → Search β}
    (rest : Related logs values (next ()) generation (next' ())) :
    Related logs values (record derivation >>= next) generation
      (record derivation >>= next') :=
  write_bind congruence (fun _ => rfl) rest

theorem under {left : Search α} {right : Search β} (head : Predicate)
    (related : Related logs values left generation right) :
    Related logs values (under head left) generation (under head right) where
  forward ended other := by
    rw [Search.under, Option.map_eq_some_iff] at ended
    obtain ⟨run, hrun, rfl⟩ := ended
    obtain ⟨run', hrun', drawn, log, value⟩ := related.forward hrun other
    exact ⟨{ run' with log := run'.log.under [head] },
      by rw [Search.under, hrun']; rfl, drawn, congruence.under _ log, value⟩
  backward ended := by
    rw [Search.under, Option.map_eq_some_iff] at ended
    obtain ⟨run', hrun', rfl⟩ := ended
    obtain ⟨run, hrun⟩ := related.backward hrun'
    exact ⟨_, by rw [Search.under, hrun]; rfl⟩

/-- Searches for the elements of two lists are related when they are so
element by element and related results stay related. -/
theorem each {search : α → Search (List α')} {search' : β → Search (List β')}
    {results : Nat → α' → β' → Prop}
    (lasting : ∀ a b drawn later, drawn ≤ later → results drawn a b →
      results later a b)
    {inputs : List α} {inputs' : List β}
    (elements : List.Forall₂ (fun a b => ∀ drawn, generation ≤ drawn →
      Related logs (fun last => List.Forall₂ (results last)) (search a) drawn
        (search' b)) inputs inputs') :
    Related logs (fun last => List.Forall₂ (results last))
      (each search inputs) generation (each search' inputs') := by
  suffices later : ∀ start, generation ≤ start →
      Related logs (fun last => List.Forall₂ (results last))
        (Search.each search inputs) start (Search.each search' inputs') from
    later generation (Nat.le_refl _)
  induction elements with
  | nil => exact fun start _ => .pure congruence .nil
  | cons first _ ih =>
      intro start beyond
      refine bind congruence (first start beyond) ?_
      intro drawn found found' after paired
      refine bind congruence (ih drawn (Nat.le_trans beyond after)) ?_
      intro last more more' further others
      have lasted := paired.imp fun a b holds =>
        lasting a b drawn last further holds
      exact .pure congruence (List.rel_append lasted others)

end Related

end Search

end HornLogic
