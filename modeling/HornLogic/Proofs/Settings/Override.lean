import HornLogic.Proofs.Text
import HornLogic.Proofs.Text.Numeral
import HornLogic.Settings.Override

/-!
# Settings from the environment

What overrides make of settings.  Each of them reads a value and puts it in one place,
so that those that are recognised can be taken one after the other without touching what
others have put.  The first one that is not recognised changes nothing and is reported.
-/

namespace HornLogic

namespace Settings

namespace Override

/-! ## Places -/

def Value : Override → Type
  | .format => OutputFormat
  | .logLevel => LogLevel
  | .maxDepth => UInt64
  | .conjunction => Conjunction
  | .trace => Bool
  | .ingestPolicy => IngestPolicy

def read? (text : String) : (override : Override) → Option override.Value
  | .format => (Choice.ofText? text : Option OutputFormat)
  | .logLevel => (Choice.ofText? text : Option LogLevel)
  | .maxDepth => readDepth? text
  | .conjunction => (Choice.ofText? text : Option Conjunction)
  | .trace => readFlag? text
  | .ingestPolicy => (Choice.ofText? text : Option IngestPolicy)

def get (settings : Settings) : (override : Override) → override.Value
  | .format => settings.general.format
  | .logLevel => settings.general.logLevel
  | .maxDepth => settings.resolution.maxDepth
  | .conjunction => settings.resolution.conjunction
  | .trace => settings.resolution.trace
  | .ingestPolicy => settings.ingest.policy

def put (settings : Settings) : (override : Override) → override.Value → Settings
  | .format, value =>
      { settings with general := { settings.general with format := value } }
  | .logLevel, value =>
      { settings with general := { settings.general with logLevel := value } }
  | .maxDepth, value =>
      { settings with resolution := { settings.resolution with maxDepth := value } }
  | .conjunction, value =>
      { settings with resolution := { settings.resolution with conjunction := value } }
  | .trace, value =>
      { settings with resolution := { settings.resolution with trace := value } }
  | .ingestPolicy, value =>
      { settings with ingest := { settings.ingest with policy := value } }

variable {settings next after : Settings} {override other : Override}

theorem set?_eq_map (settings : Settings) (text : String) (override : Override) :
    override.set? settings text = (override.read? text).map (override.put settings) := by
  cases override <;> rfl

@[simp] theorem get_put (value : override.Value) :
    override.get (override.put settings value) = value := by
  cases override <;> rfl

/-- No two settings are in the same place. -/
theorem get_put_of_ne (different : other ≠ override) (value : override.Value) :
    other.get (override.put settings value) = other.get settings := by
  cases override <;> cases other <;> first | rfl | exact absurd rfl different

/-- Settings are told apart by their values. -/
theorem ext_get (same : ∀ override : Override, override.get after = override.get settings) :
    after = settings := by
  obtain ⟨⟨format, level⟩, ⟨depth, conjunction, trace⟩, ⟨policy⟩⟩ := after
  obtain rfl : format = _ := same .format
  obtain rfl : level = _ := same .logLevel
  obtain rfl : depth = _ := same .maxDepth
  obtain rfl : conjunction = _ := same .conjunction
  obtain rfl : trace = _ := same .trace
  obtain rfl : policy = _ := same .ingestPolicy
  rfl

theorem mem_all (override : Override) : override ∈ all := by
  cases override <;> decide

/-! ## Overrides taken in order -/

/-- If the variable is present, its value is recognised. -/
def Recognised (lookup : String → Option String) (override : Override) : Prop :=
  ∀ text, lookup override.key = some text → override.read? text ≠ none

instance (lookup : String → Option String) (override : Override) :
    Decidable (Recognised lookup override) :=
  decidable_of_iff
    ((lookup override.key).all (fun text => (override.read? text).isSome) = true) (by
      rw [Recognised]
      cases lookup override.key <;> simp [Option.isSome_iff_ne_none])

/-- Some overrides have been taken: their settings have the values of the variables that
are present, and no other setting has changed. -/
structure Takes (lookup : String → Option String) (before : Settings)
    (taken : List Override) (after : Settings) : Prop where
  present : ∀ override ∈ taken, ∀ text, lookup override.key = some text →
    override.read? text = some (override.get after)
  absent : ∀ override ∈ taken, lookup override.key = none →
    override.get after = override.get before
  others : ∀ override ∉ taken, override.get after = override.get before

variable {lookup : String → Option String} {taken : List Override} {text : String}

theorem Takes.nil (lookup : String → Option String) (settings : Settings) :
    Takes lookup settings [] settings :=
  ⟨List.forall_mem_nil _, List.forall_mem_nil _, fun _ _ => rfl⟩

theorem takes_absent (missing : lookup override.key = none) :
    Takes lookup settings [override] settings := by
  refine ⟨List.forall_mem_singleton.mpr ?_, fun _ _ _ => rfl, fun _ _ => rfl⟩
  rw [missing]
  exact nofun

theorem takes_put {value : override.Value} (found : lookup override.key = some text)
    (isRead : override.read? text = some value) :
    Takes lookup settings [override] (override.put settings value) := by
  refine ⟨List.forall_mem_singleton.mpr ?_, List.forall_mem_singleton.mpr ?_, ?_⟩
  · rw [found]
    rintro _ ⟨⟩
    rw [isRead, get_put]
  · rw [found]
    exact nofun
  · intro other different
    exact get_put_of_ne (List.ne_of_not_mem_cons different) value

/-- A further override does not touch what has been taken, and finds its own setting as
it was. -/
theorem Takes.cons (first : Takes lookup settings [override] next)
    (rest : Takes lookup next taken after) (apart : override ∉ taken) :
    Takes lookup settings (override :: taken) after := by
  have kept : override.get after = override.get next := rest.others override apart
  have untouched : ∀ other ∈ taken, other.get next = other.get settings := by
    rintro other member
    refine first.others other ?_
    rw [List.mem_singleton]
    rintro rfl
    exact apart member
  refine ⟨List.forall_mem_cons.mpr ⟨?_, rest.present⟩,
    List.forall_mem_cons.mpr ⟨?_, ?_⟩, ?_⟩
  · rw [kept]
    exact first.present override (List.mem_singleton_self _)
  · rw [kept]
    exact first.absent override (List.mem_singleton_self _)
  · intro other member missing
    rw [rest.absent other member missing, untouched other member]
  · intro other different
    have here : other ∉ [override] := by
      rw [List.mem_singleton]
      exact List.ne_of_not_mem_cons different
    rw [rest.others other (List.not_mem_of_not_mem_cons different),
      first.others other here]

theorem Takes.recognised (takes : Takes lookup settings taken after) :
    ∀ override ∈ taken, override.Recognised lookup := by
  intro override member text found
  rw [takes.present override member text found]
  exact nofun

/-- The same overrides leave the same settings. -/
theorem Takes.again {again : Settings} (takes : Takes lookup settings all after)
    (repeated : Takes lookup after all again) : again = after := by
  refine ext_get fun override => ?_
  have member := mem_all override
  cases found : lookup override.key with
  | none => exact repeated.absent override member found
  | some text =>
      have value := repeated.present override member text found
      rw [takes.present override member text found] at value
      exact (Option.some.inj value).symm

end Override

open Override (Takes Recognised)

variable {lookup : String → Option String}

theorem overrideEach_cons (settings : Settings) (override : Override)
    (rest : List Override) :
    (∃ text, lookup override.key = some text ∧ override.read? text = none ∧
      settings.overrideEach lookup (override :: rest) =
        (settings, .error (.invalidValue override.key text))) ∨
    ∃ next, Takes lookup settings [override] next ∧
      settings.overrideEach lookup (override :: rest) =
        next.overrideEach lookup rest := by
  rw [overrideEach]
  cases found : lookup override.key with
  | none => exact .inr ⟨settings, Override.takes_absent found, rfl⟩
  | some text =>
      dsimp only
      rw [Override.set?_eq_map]
      cases isRead : override.read? text with
      | none => exact .inl ⟨text, rfl, isRead, rfl⟩
      | some value => exact .inr ⟨_, Override.takes_put found isRead, rfl⟩

/-- Overrides are taken up to the first one that is not recognised. -/
theorem overrideEach_cases {overrides : List Override} (distinct : overrides.Nodup)
    (settings : Settings) :
    (∃ after, settings.overrideEach lookup overrides = (after, .ok ()) ∧
      Takes lookup settings overrides after) ∨
    ∃ front override back text after, overrides = front ++ override :: back ∧
      lookup override.key = some text ∧ override.read? text = none ∧
      settings.overrideEach lookup overrides =
        (after, .error (.invalidValue override.key text)) ∧
      Takes lookup settings front after := by
  induction overrides generalizing settings with
  | nil => exact .inl ⟨settings, rfl, .nil lookup settings⟩
  | cons first rest ih =>
      obtain ⟨apart, distinct⟩ := List.nodup_cons.mp distinct
      rcases settings.overrideEach_cons first rest with
        ⟨text, found, unread, failed⟩ | ⟨next, takes, goes⟩
      · exact .inr ⟨[], first, rest, text, settings, rfl, found, unread, failed,
          .nil lookup settings⟩
      · rw [goes]
        rcases ih distinct next with ⟨after, done, others⟩ |
          ⟨front, override, back, text, after, rfl, found, unread, failed, others⟩
        · exact .inl ⟨after, done, takes.cons others apart⟩
        · -- only those in front of the bad one have been taken
          have apart : first ∉ front := fun member =>
            apart (List.mem_append_left _ member)
          exact .inr ⟨first :: front, override, back, text, after, rfl, found, unread,
            failed, takes.cons others apart⟩

/-- A depth limit is recognised if it is a numeral below `2 ^ 64`. -/
theorem readDepth?_ne_none_iff {text : String} :
    Override.readDepth? text ≠ none ↔ ∃ digits,
      (Text.trim text.toList = digits ∨ Text.trim text.toList = '+' :: digits) ∧
      digits ≠ [] ∧ (∀ c ∈ digits, c.isDigit = true) ∧
      Text.ofDigits 10 digits < 2 ^ 64 := by
  rw [Override.readDepth?, Option.ne_none_iff_exists']
  constructor
  · rintro ⟨depth, isDepth⟩
    obtain ⟨digits, written, nonempty, each, value⟩ := Text.word?_eq_some_iff.mp isDepth
    exact ⟨digits, written, nonempty, each, value ▸ depth.toNat_lt⟩
  · rintro ⟨digits, written, nonempty, each, small⟩
    refine ⟨UInt64.ofNat (Text.ofDigits 10 digits), Text.word?_eq_some_iff.mpr
      ⟨digits, written, nonempty, each, ?_⟩⟩
    exact (UInt64.toNat_ofNat_of_lt' small).symm

end Settings

namespace Example

/-- Variables of which the fifth one does not hold a truth value. -/
def environment (key : String) : Option String :=
  [("HORNET_FORMAT", "JSON"), ("HORNET_MAX_DEPTH", " +12\n"), ("HORNET_TRACE", "maybe"),
    ("HORNET_INGEST_POLICY", "atomic")].lookup key

def withoutTrace (key : String) : Option String :=
  if key = "HORNET_TRACE" then none else environment key

end Example

namespace Settings

open Override (Takes Recognised)
open Example (environment withoutTrace)

/--
Overrides are taken in a fixed order.  If each variable that is present holds a value
that is recognised, its setting has this value afterwards, all other settings are as
they were, and taking the overrides again changes nothing.  Otherwise the first variable
that does not is reported with its value; the overrides in front of it have been taken,
and its own setting and those behind are as they were.
-/
theorem overrideFrom_in_order (settings : Settings) (lookup : String → Option String) :
    Override.all.map Override.key =
      ["HORNET_FORMAT", "HORNET_LOG_LEVEL", "HORNET_MAX_DEPTH", "HORNET_CONJUNCTION",
        "HORNET_TRACE", "HORNET_INGEST_POLICY"] ∧
    ((∀ override, Recognised lookup override) →
      ∃ after, settings.overrideFrom lookup = (after, .ok ()) ∧
        Takes lookup settings Override.all after ∧
        after.overrideFrom lookup = (after, .ok ())) ∧
    ((∃ override, ¬ Recognised lookup override) →
      ∃ front override back text after, Override.all = front ++ override :: back ∧
        (∀ earlier ∈ front, Recognised lookup earlier) ∧
        lookup override.key = some text ∧ override.read? text = none ∧
        settings.overrideFrom lookup =
          (after, .error (.invalidValue override.key text)) ∧
        Takes lookup settings front after ∧
        ∀ later ∈ override :: back, later.get after = later.get settings) ∧
    ∀ text, Override.read? text .maxDepth ≠ none ↔ ∃ digits,
      (Text.trim text.toList = digits ∨ Text.trim text.toList = '+' :: digits) ∧
      digits ≠ [] ∧ (∀ c ∈ digits, c.isDigit = true) ∧
      Text.ofDigits 10 digits < 2 ^ 64 := by
  have distinct : Override.all.Nodup := by decide
  have good (recognised : ∀ override, Recognised lookup override) (settings : Settings) :
      ∃ after, settings.overrideFrom lookup = (after, .ok ()) ∧
        Takes lookup settings Override.all after := by
    rcases overrideEach_cases distinct settings with
      done | ⟨_, override, _, text, _, _, found, unread, _⟩
    · exact done
    · exact absurd unread (recognised override text found)
  refine ⟨rfl, fun recognised => ?_, ?_, fun _ => readDepth?_ne_none_iff⟩
  · obtain ⟨after, done, takes⟩ := good recognised settings
    obtain ⟨again, repeated, takes'⟩ := good recognised after
    rw [takes.again takes'] at repeated
    exact ⟨after, done, takes, repeated⟩
  · rintro ⟨bad, unrecognised⟩
    rcases overrideEach_cases distinct settings with
      ⟨_, _, takes⟩ | ⟨front, override, back, text, after, split, found, unread, failed, takes⟩
    · exact absurd (takes.recognised bad (Override.mem_all bad)) unrecognised
    · refine ⟨front, override, back, text, after, split, takes.recognised, found, unread,
        failed, takes, fun later member => takes.others later fun earlier => ?_⟩
      rw [split] at distinct
      exact (List.nodup_append.mp distinct).2.2 later earlier later member rfl

/-- The variable that is reported stands behind two that have taken effect and in front
of one that has not; without it all of them take effect. -/
theorem overrideFrom_in_order_environment :
    ¬ Recognised environment .trace ∧
    (∃ front override back after, Override.all = front ++ override :: back ∧
      override.key = "HORNET_TRACE" ∧ Takes environment {} front after ∧
      ({} : Settings).overrideFrom environment =
        (after, .error (.invalidValue "HORNET_TRACE" "maybe")) ∧
      after = { general.format := .json, resolution.maxDepth := 12 }) ∧
    (∀ override, Recognised withoutTrace override) ∧
    ∃ after, ({} : Settings).overrideFrom withoutTrace = (after, .ok ()) ∧
      after.overrideFrom withoutTrace = (after, .ok ()) := by
  have unrecognised : ¬ Recognised environment .trace := by decide +kernel
  have recognised : ∀ override, Recognised withoutTrace override := by
    intro override
    cases override <;> decide +kernel
  have computed : ({} : Settings).overrideFrom environment =
      ({ general.format := .json, resolution.maxDepth := 12 },
        .error (.invalidValue "HORNET_TRACE" "maybe")) := by decide +kernel
  obtain ⟨_, _, failing, _⟩ := overrideFrom_in_order {} environment
  obtain ⟨front, override, back, text, after, split, _, _, _, failed, takes, _⟩ :=
    failing ⟨.trace, unrecognised⟩
  obtain ⟨settled, reported⟩ := Prod.mk.inj (failed.symm.trans computed)
  obtain ⟨named, rfl⟩ := Problem.invalidValue.inj (Except.error.inj reported)
  rw [named] at failed
  obtain ⟨_, passing, _⟩ := overrideFrom_in_order {} withoutTrace
  obtain ⟨last, done, _, again⟩ := passing recognised
  exact ⟨unrecognised, ⟨front, override, back, after, split, named, takes, failed, settled⟩,
    recognised, last, done, again⟩

end Settings

end HornLogic
