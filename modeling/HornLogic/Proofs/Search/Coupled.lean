import HornLogic.Proofs.Search.Related

/-!
# Coupled searches

Two searches are coupled when their logs and their values are related if both
of them end.  Nothing is said about a search that does not end, so that each
search may be run with fuel of its own.
-/

namespace HornLogic.Search

variable {α β α' β' : Type}

/-- Whenever both searches end, their logs and their values are related. -/
structure Coupled (logs : SearchLog → SearchLog → Prop)
    (values : α → β → Prop) (left : Search α) (right : Search β) : Prop where
  both : ∀ {generation other run run'}, left generation = some run →
    right other = some run' →
      logs run.log run'.log ∧ values run.value run'.value

namespace Coupled

variable {logs : SearchLog → SearchLog → Prop} {values : α → β → Prop}

theorem endless_left (right : Search β) :
    Coupled logs values endless right where
  both ended := nomatch ended

theorem endless_right (left : Search α) :
    Coupled logs values left endless where
  both _ ended := nomatch ended

theorem weaken {weaker : α → β → Prop} {left : Search α} {right : Search β}
    (coupled : Coupled logs values left right)
    (implies : ∀ a b, values a b → weaker a b) :
    Coupled logs weaker left right where
  both ended ended' := by
    obtain ⟨log, value⟩ := coupled.both ended ended'
    exact ⟨log, implies _ _ value⟩

/-- The searches may go on for the sake of clauses with different heads, if the
relation between the logs does not notice. -/
theorem under_heads {left : Search α} {right : Search β} {head head' : Predicate}
    (unnoticed : ∀ log log', logs log log' →
      logs (log.under [head]) (log'.under [head']))
    (coupled : Coupled logs values left right) :
    Coupled logs values (under head left) (under head' right) where
  both ended ended' := by
    rw [Search.under.eq_def, Option.map_eq_some_iff] at ended ended'
    obtain ⟨inner, hinner, rfl⟩ := ended
    obtain ⟨inner', hinner', rfl⟩ := ended'
    obtain ⟨log, value⟩ := coupled.both hinner hinner'
    exact ⟨unnoticed _ _ log, value⟩

variable (congruence : LogCongruence logs)
include congruence

protected theorem pure {a : α} {b : β} (holds : values a b) :
    Coupled logs values (pure a) (pure b) where
  both ended ended' := by
    cases ended
    cases ended'
    exact ⟨congruence.refl _, holds⟩

theorem bind {left : Search α} {right : Search β} {next : α → Search α'}
    {next' : β → Search β'} {results : α' → β' → Prop}
    (first : Coupled logs values left right)
    (second : ∀ a b, values a b → Coupled logs results (next a) (next' b)) :
    Coupled logs results (left >>= next) (right >>= next') where
  both ended ended' := by
    obtain ⟨start, rest, hstart, hrest, rfl⟩ := bind_eq_some.mp ended
    obtain ⟨start', rest', hstart', hrest', rfl⟩ := bind_eq_some.mp ended'
    obtain ⟨log, value⟩ := first.both hstart hstart'
    obtain ⟨further, result⟩ := (second _ _ value).both hrest hrest'
    exact ⟨congruence.append log further, result⟩

/-- Both searches write related entries into the log. -/
theorem write_bind {step step' : Search Unit} {log log' : SearchLog}
    (writes : ∀ drawn, step drawn = some ⟨(), log, drawn⟩)
    (writes' : ∀ drawn, step' drawn = some ⟨(), log', drawn⟩)
    (related : logs log log') {next : Unit → Search α}
    {next' : Unit → Search β}
    (rest : Coupled logs values (next ()) (next' ())) :
    Coupled logs values (step >>= next) (step' >>= next') where
  both ended ended' := by
    obtain ⟨start, run, hstart, hrun, rfl⟩ := bind_eq_some.mp ended
    obtain ⟨start', run', hstart', hrun', rfl⟩ := bind_eq_some.mp ended'
    rw [writes] at hstart
    rw [writes'] at hstart'
    cases hstart
    cases hstart'
    obtain ⟨further, value⟩ := rest.both hrun hrun'
    exact ⟨congruence.append related further, value⟩

theorem count_bind (stats : Stats) {next : Unit → Search α}
    {next' : Unit → Search β}
    (rest : Coupled logs values (next ()) (next' ())) :
    Coupled logs values (count stats >>= next) (count stats >>= next') :=
  write_bind congruence (fun _ => rfl) (fun _ => rfl) (congruence.refl _) rest

theorem record_bind (derivation : Derivation) {next : Unit → Search α}
    {next' : Unit → Search β}
    (rest : Coupled logs values (next ()) (next' ())) :
    Coupled logs values (record derivation >>= next)
      (record derivation >>= next') :=
  write_bind congruence (fun _ => rfl) (fun _ => rfl) (congruence.refl _) rest

theorem under {left : Search α} {right : Search β} (head : Predicate)
    (coupled : Coupled logs values left right) :
    Coupled logs values (under head left) (under head right) :=
  coupled.under_heads fun _ _ => congruence.under [head]

/-- Searches for the elements of two lists are coupled when they are so element
by element. -/
theorem each {search : α → Search (List α')} {search' : β → Search (List β')}
    {results : α' → β' → Prop} {inputs : List α} {inputs' : List β}
    (elements : List.Forall₂ (fun a b =>
      Coupled logs (List.Forall₂ results) (search a) (search' b)) inputs
        inputs') :
    Coupled logs (List.Forall₂ results) (each search inputs)
      (each search' inputs') := by
  induction elements with
  | nil => exact .pure congruence .nil
  | cons first _ ih =>
      refine first.bind congruence fun found found' paired => ?_
      refine ih.bind congruence fun more more' others => ?_
      exact .pure congruence (List.rel_append paired others)

end Coupled

end HornLogic.Search
