import HornLogic.Proofs.Toml
import HornLogic.Settings.File

/-!
# Saved settings

What is left of settings in a file.  The document for settings is plainly written, so it
is read line by line as the entries that the lines give, and every section finds all of
its own among them.  Only a depth limit that TOML has no integer for cannot be written.
-/

namespace HornLogic

open Toml (Plain PlainLine Value)

/-! ## Names of alternatives -/

/-- Alternatives that a document tells apart by their names. -/
class Choice.Lawful (α : Type) [Choice α] : Prop where
  /-- A name belongs to one alternative. -/
  ofName?_name : ∀ a : α, Choice.ofName? (Choice.name a) = some a
  /-- A name can be written without escapes. -/
  fits_name : ∀ a : α, (Plain.text (Choice.name a)).Fits

instance : Choice.Lawful OutputFormat where
  ofName?_name a := by cases a <;> decide
  fits_name a := by cases a <;> decide

instance : Choice.Lawful LogLevel where
  ofName?_name a := by cases a <;> decide
  fits_name a := by cases a <;> decide

instance : Choice.Lawful Conjunction where
  ofName?_name a := by cases a <;> decide
  fits_name a := by cases a <;> decide

instance : Choice.Lawful IngestPolicy where
  ofName?_name a := by cases a <;> decide
  fits_name a := by cases a <;> decide

namespace Settings

@[simp] theorem readChoice?_name {α : Type} [Choice α] [Choice.Lawful α] (a : α) :
    readChoice? (.string (Choice.name a)) = some a :=
  Choice.Lawful.ofName?_name a

@[simp] theorem readLimit?_toNat (depth : UInt64) :
    readLimit? (.integer depth.toNat) = some depth := by
  rw [readLimit?, if_pos (Int.natCast_nonneg _), Int.toNat_natCast, UInt64.ofNat_toNat]

/-! ## The document of settings -/

def documentLines (settings : Settings) : List PlainLine :=
  [.header "general",
    .pair "format" (.text (Choice.name settings.general.format)),
    .pair "log_level" (.text (Choice.name settings.general.logLevel)),
    .empty,
    .header "resolution",
    .pair "max_depth" (.natural settings.resolution.maxDepth.toNat),
    .pair "conjunction" (.text (Choice.name settings.resolution.conjunction)),
    .pair "trace" (.bool settings.resolution.trace),
    .empty,
    .header "ingest",
    .pair "policy" (.text (Choice.name settings.ingest.policy))]

def entries (settings : Settings) : List (String × Value) :=
  [("general", .table
      [("format", .string (Choice.name settings.general.format)),
        ("log_level", .string (Choice.name settings.general.logLevel))]),
    ("resolution", .table
      [("max_depth", .integer settings.resolution.maxDepth.toNat),
        ("conjunction", .string (Choice.name settings.resolution.conjunction)),
        ("trace", .bool settings.resolution.trace)]),
    ("ingest", .table
      [("policy", .string (Choice.name settings.ingest.policy))])]

variable (settings : Settings)

theorem document_eq :
    settings.document = String.join (settings.documentLines.map PlainLine.written) := by
  apply String.toList_injective
  unfold document
  simp only [documentLines, List.map_cons, List.map_nil, String.toList_join,
    String.toList_append, PlainLine.written, textLine, Plain.written, List.flatMap_cons,
    List.flatMap_nil, List.append_assoc]
  rfl

theorem fits_documentLines
    (small : Toml.isInteger settings.resolution.maxDepth.toNat = true) :
    ∀ l ∈ settings.documentLines, l.Fits := by
  have opens (name : String) (bare : Toml.Bare name.toList) :
      (PlainLine.header name).Fits := bare
  have names (key : String) (bare : Toml.Bare key.toList) {α : Type} [Choice α]
      [Choice.Lawful α] (a : α) : (PlainLine.pair key (.text (Choice.name a))).Fits :=
    ⟨bare, Choice.Lawful.fits_name a⟩
  simp only [documentLines, List.forall_mem_cons]
  exact ⟨opens "general" (by decide), names "format" (by decide) _,
    names "log_level" (by decide) _, trivial,
    opens "resolution" (by decide), ⟨by decide, small⟩, names "conjunction" (by decide) _,
    ⟨by decide, trivial⟩, trivial,
    opens "ingest" (by decide), names "policy" (by decide) _, List.forall_mem_nil _⟩

theorem enter_documentLines :
    (settings.documentLines.foldlM PlainLine.enter {}).map
      (fun draft => Toml.entryValues draft.root) = some settings.entries :=
  rfl

/-- Every section finds its settings under its own keys. -/
theorem ofEntries?_entries : ofEntries? settings.entries = some settings := by
  have general : readGeneral? (settings.entries.lookup "general") =
      some settings.general := by
    change (do
      let format ← readChoice? (.string (Choice.name settings.general.format))
      let level ← readChoice? (.string (Choice.name settings.general.logLevel))
      some (General.mk format level)) = _
    simp
  have resolution : readResolving? (settings.entries.lookup "resolution") =
      some settings.resolution := by
    change (do
      let depth ← readLimit? (.integer settings.resolution.maxDepth.toNat)
      let conjunction ← readChoice? (.string (Choice.name settings.resolution.conjunction))
      let trace ← readBool? (.bool settings.resolution.trace)
      some (Resolving.mk depth conjunction trace)) = _
    simp [readBool?]
  have ingest : readIngesting? (settings.entries.lookup "ingest") =
      some settings.ingest := by
    change (do
      let policy ← readChoice? (.string (Choice.name settings.ingest.policy))
      some (Ingesting.mk policy)) = _
    simp
  rw [ofEntries?, general, resolution, ingest]
  rfl

/-! ## Saving and loading -/

section Saving

variable {settings}

/-- A document that can be written is read as the settings it was written for, whatever
file it is found in. -/
theorem readFrom_document
    (small : Toml.isInteger settings.resolution.maxDepth.toNat = true) (path : String) :
    readFrom path settings.document = .ok settings := by
  have found : Toml.read? settings.document = some settings.entries := by
    rw [document_eq, Toml.read?_written (fits_documentLines settings small),
      enter_documentLines]
  rw [readFrom, found, Option.bind_some, ofEntries?_entries]

end Saving

/-- The integers of TOML are the signed ones of 64 bits. -/
theorem isInteger_natCast_iff (n : Nat) :
    Toml.isInteger n = true ↔ n ≤ 2 ^ 63 - 1 := by
  have least : Int64.minValue.toInt = -2 ^ 63 := by decide
  have greatest : Int64.maxValue.toInt = 2 ^ 63 - 1 := by decide
  rw [Toml.isInteger, least, greatest, Bool.and_eq_true, decide_eq_true_iff,
    decide_eq_true_iff]
  omega

/-- Settings cannot be saved if and only if their depth limit is beyond the signed
integers of 64 bits.  Any others are the same after they were saved and loaded. -/
theorem saved_and_loaded (settings : Settings) :
    ((∃ message, settings.write = .error (.unwritable message)) ↔
      2 ^ 63 - 1 < settings.resolution.maxDepth.toNat) ∧
    (settings.resolution.maxDepth.toNat ≤ 2 ^ 63 - 1 →
      ∃ text, settings.write = .ok text ∧ read text = .ok settings ∧
        ∀ path, readFrom path text = .ok settings) := by
  have fits := isInteger_natCast_iff settings.resolution.maxDepth.toNat
  refine ⟨⟨?refused, ?beyond⟩, ?within⟩
  case refused =>
    rintro ⟨message, failed⟩
    by_contra small
    rw [write, if_pos (fits.mpr (Nat.not_lt.mp small))] at failed
    cases failed
  case beyond =>
    intro beyond
    exact ⟨_, if_neg fun small => absurd (fits.mp small) (Nat.not_le.mpr beyond)⟩
  case within =>
    intro within
    have small := fits.mpr within
    exact ⟨settings.document, if_pos small, readFrom_document small _,
      readFrom_document small⟩

/-- Settings that differ from the defaults in every place, at the greatest depth limit
that can be saved and behind it. -/
theorem saved_and_loaded_at_greatest :
    (∃ text, write ⟨⟨.json, .debug⟩, ⟨9223372036854775807, .singlePass, true⟩,
        ⟨.keepLeading⟩⟩ = .ok text ∧
      read text = .ok ⟨⟨.json, .debug⟩, ⟨9223372036854775807, .singlePass, true⟩,
        ⟨.keepLeading⟩⟩) ∧
    ∃ message, write ⟨⟨.json, .debug⟩, ⟨9223372036854775808, .singlePass, true⟩,
      ⟨.keepLeading⟩⟩ = .error (.unwritable message) := by
  constructor
  · obtain ⟨text, written, found, _⟩ := (saved_and_loaded ⟨⟨.json, .debug⟩,
      ⟨9223372036854775807, .singlePass, true⟩, ⟨.keepLeading⟩⟩).2 (by decide)
    exact ⟨text, written, found⟩
  · exact (saved_and_loaded ⟨⟨.json, .debug⟩,
      ⟨9223372036854775808, .singlePass, true⟩, ⟨.keepLeading⟩⟩).1.mpr (by decide)

/-! ## The template -/

def templateLines : List PlainLine :=
  [.comment "hornet configuration file",
    .empty,
    .header "general",
    .comment "Output format: text, json",
    .pair "format" (.text "text"),
    .comment "Logging level: quiet, normal, verbose, debug",
    .pair "log_level" (.text "normal"),
    .empty,
    .header "resolution",
    .comment "Maximum goal depth (0 = unlimited)",
    .pair "max_depth" (.natural 0),
    .comment "How rule bodies are solved: threaded, single-pass",
    .pair "conjunction" (.text "threaded"),
    .comment "Print derivation traces after results",
    .pair "trace" (.bool false),
    .empty,
    .header "ingest",
    .comment "On a malformed statement: all-or-nothing, prefix",
    .pair "policy" (.text "all-or-nothing")]

/-- The template says what the document for the defaults says. -/
theorem readFrom_template (path : String) : readFrom path template = .ok {} := by
  have lines : template = String.join (templateLines.map PlainLine.written) := by
    decide +kernel
  have fits : ∀ l ∈ templateLines, l.Fits := by
    decide
  have found : Toml.read? template = some (entries {}) := by
    rw [lines, Toml.read?_written fits]
    rfl
  rw [readFrom, found, Option.bind_some, ofEntries?_entries]

end Settings

end HornLogic
