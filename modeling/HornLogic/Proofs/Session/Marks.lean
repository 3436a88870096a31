import HornLogic.Proofs.Engine.Answers
import HornLogic.Proofs.Session.Records

/-!
# Marked lines

Which lines of output report a fault.  A report of a fault begins with a mark at the
beginning of a line, and no line of an answer begins so: in JSON because the record of an
answer has another first member, in plain text because names are words.  So the faults
that a session has reported can be told from its output alone.
-/

namespace HornLogic

open Text (linesOf Closed)

/-! ## Reports in plain text -/

/-- The text is on one line and does not begin with the mark of a fault. -/
structure PlainText (text : String) : Prop where
  noReturn : '\r' ∉ text.toList
  noFeed : '\n' ∉ text.toList
  unmarked : ¬ "Error: ".toList <+: text.toList

/-- The name of a predicate is followed by a parenthesis, and no mark is a word. -/
theorem Predicate.WellFormed.plainText {p : Predicate} (wellFormed : p.WellFormed) :
    PlainText p.text where
  noReturn member := absurd (wellFormed.printed _ member) (by decide)
  noFeed member := absurd (wellFormed.printed _ member) (by decide)
  unmarked := by
    rintro ⟨behind, marked⟩
    have letters : ∀ c ∈ p.name.toList, Statement.isWordChar c = true := fun c member =>
      Statement.isWordChar_iff.mpr (wellFormed.word.letters c member)
    have named : ∃ rest, p.text.toList.dropWhile Statement.isWordChar = '(' :: rest := by
      rw [Predicate.toList_text, List.dropWhile_append_of_pos letters]
      exact ⟨_, rfl⟩
    have colon : ("Error: ".toList ++ behind).dropWhile Statement.isWordChar =
        ':' :: ' ' :: behind := rfl
    obtain ⟨rest, paren⟩ := named
    rw [← marked, colon] at paren
    cases (List.cons.inj paren).1

theorem Derivation.exists_indent (depth : Nat) (step : Predicate) : ∃ gap,
    (∀ c ∈ gap, c = ' ') ∧
      (String.join (List.replicate depth "   ") ++ "└─ " ++ step.text).toList =
        gap ++ '└' :: '─' :: ' ' :: step.text.toList := by
  refine ⟨(List.replicate depth "   ").flatMap String.toList, ?_, by simp⟩
  refine List.forall_mem_flatMap.mpr fun blank member => ?_
  rw [List.eq_of_mem_replicate member]
  simp

theorem Derivation.plainText_treeLines {derivation : Derivation}
    (wellFormed : ∀ step ∈ derivation, step.WellFormed) (depth : Nat) :
    ∀ line ∈ derivation.treeLines depth, PlainText line := by
  induction derivation generalizing depth with
  | nil => exact List.forall_mem_nil _
  | cons step rest ih =>
      obtain ⟨first, others⟩ := List.forall_mem_cons.mp wellFormed
      rw [treeLines]
      refine List.forall_mem_cons.mpr ⟨?_, ih others (depth + 1)⟩
      have plain := first.plainText
      obtain ⟨gap, blank, text⟩ := exists_indent depth step
      have solid (c : Char) (other : c ∉ [' ', '└', '─']) (absent : c ∉ step.text.toList) :
          c ∉ gap ++ '└' :: '─' :: ' ' :: step.text.toList := by
        simp only [List.mem_cons, List.not_mem_nil, or_false, not_or] at other
        have outside : c ∉ gap := fun member => other.1 (blank c member)
        simp [other, outside, absent]
      refine ⟨?_, ?_, ?_⟩
      · rw [text]
        exact solid '\r' (by decide) plain.noReturn
      · rw [text]
        exact solid '\n' (by decide) plain.noFeed
      · rw [text]
        rintro ⟨behind, marked⟩
        cases gap with
        | nil => cases (List.cons.inj marked).1
        | cons c gap =>
            have first := (List.cons.inj marked).1
            rw [blank c List.mem_cons_self] at first
            cases first

namespace Resolution

def solutionLines (r : Resolution) : List String :=
  match r.solutions with
  | [] => ["No solution found."]
  | solutions => "Results:" :: solutions.map Predicate.text

def treeLines (entry : Derivation × Nat) : List String :=
  ("Derivation " ++ toString entry.2 ++ ":") :: "Query" :: entry.1.treeLines 0

def reportLines (r : Resolution) (trace : Bool) : List String :=
  r.solutionLines ++
    if trace && !r.derivations.isEmpty then
      "" :: (r.derivations.zipIdx 1).flatMap treeLines
    else []

/-- It makes no difference on which side of the lines their line feeds are. -/
theorem join_feeds (first : String) (texts : List String) :
    first ++ String.join (texts.map ("\n" ++ ·)) ++ "\n" =
      String.join ((first :: texts).map (· ++ "\n")) := by
  induction texts generalizing first with
  | nil => simp
  | cons text texts ih =>
      have rest := ih text
      simp only [List.map_cons, String.join_cons] at rest ⊢
      rw [← rest]
      simp [String.append_assoc]

theorem solutionText_eq (r : Resolution) :
    r.solutionText ++ "\n" = String.join (r.solutionLines.map (· ++ "\n")) := by
  rw [solutionText, solutionLines]
  cases r.solutions with
  | nil => rfl
  | cons p others =>
      have feeds := join_feeds "Results:" ((p :: others).map Predicate.text)
      rw [List.map_map] at feeds
      exact feeds

theorem traceText_eq (r : Resolution) :
    r.traceText =
      String.join (((r.derivations.zipIdx 1).flatMap treeLines).map (· ++ "\n")) := by
  rw [traceText]
  generalize r.derivations.zipIdx 1 = entries
  induction entries with
  | nil => rfl
  | cons entry entries ih =>
      obtain ⟨derivation, number⟩ := entry
      have head : ":\nQuery\n" = ":" ++ "\n" ++ "Query" ++ "\n" := rfl
      have here : treeText number derivation =
          String.join ((treeLines (derivation, number)).map (· ++ "\n")) := by
        rw [treeText, treeLines, head]
        simp only [List.map_cons, String.join_cons, String.append_assoc]
      rw [List.map_cons, String.join_cons, ih, List.flatMap_cons, List.map_append,
        String.join_append, ← here]

theorem report_eq (r : Resolution) (trace : Bool) :
    r.report trace = String.join ((r.reportLines trace).map (· ++ "\n")) := by
  rw [report, reportLines, List.map_append, String.join_append, ← solutionText_eq]
  split
  · rw [List.map_cons, String.join_cons, ← traceText_eq]
    rfl
  · rfl

theorem plainText_number (number : Nat) :
    PlainText ("Derivation " ++ toString number ++ ":") := by
  have absent (c : Char) (noDigit : c.isDigit = false) :
      c ∉ Nat.toDigits 10 number := by
    intro member
    rw [Nat.isDigit_of_mem_toDigits (by decide) (by decide) member] at noDigit
    cases noDigit
  have text : ("Derivation " ++ toString number ++ ":").toList =
      "Derivation ".toList ++ (Nat.toDigits 10 number ++ [':']) := by simp
  refine ⟨?_, ?_, ?_⟩
  · rw [text]
    simp [absent '\r' (by decide)]
  · rw [text]
    simp [absent '\n' (by decide)]
  · rw [text]
    rintro ⟨behind, marked⟩
    cases (List.cons.inj marked).1

/-- The report is plain if solutions and derivations are made of words. -/
theorem plainText_reportLines {r : Resolution} (trace : Bool)
    (solutions : ∀ p ∈ r.solutions, p.WellFormed)
    (derivations : ∀ derivation ∈ r.derivations, ∀ step ∈ derivation, step.WellFormed) :
    ∀ line ∈ r.reportLines trace, PlainText line := by
  refine List.forall_mem_append.mpr ⟨?solutions, ?trace⟩
  case solutions =>
    rw [solutionLines]
    cases found : r.solutions with
    | nil => exact List.forall_mem_singleton.mpr ⟨by decide, by decide, by decide⟩
    | cons p others =>
        rw [found] at solutions
        exact List.forall_mem_cons.mpr ⟨⟨by decide, by decide, by decide⟩,
          List.forall_mem_map.mpr fun p member => (solutions p member).plainText⟩
  case trace =>
    split
    · refine List.forall_mem_cons.mpr ⟨⟨by decide, by decide, by decide⟩, ?_⟩
      refine List.forall_mem_flatMap.mpr fun entry member => ?_
      refine List.forall_mem_cons.mpr ⟨plainText_number entry.2,
        List.forall_mem_cons.mpr ⟨⟨by decide, by decide, by decide⟩, ?_⟩⟩
      have among := List.fst_mem_of_mem_zipIdx member
      exact Derivation.plainText_treeLines (derivations entry.1 among) 0
    · exact List.forall_mem_nil _

end Resolution

/-- What an engine answers is made of words, for all that it knows was read. -/
theorem Engine.ask_wellFormed {settings : EngineSettings} {engine : Engine}
    (grown : engine.Grown settings) {text : String} {r : Resolution}
    (asked : engine.ask text = some (.ok r)) :
    (∀ p ∈ r.solutions, p.WellFormed) ∧
      ∀ derivation ∈ r.derivations, ∀ step ∈ derivation, step.WellFormed := by
  obtain ⟨query, isRead, resolved⟩ := ask_eq_ok_iff.mp asked
  obtain ⟨run, ended, rfl⟩ := resolve_eq_some_iff.mp resolved
  refine ⟨fun p member => ?_, fun derivation member step inside => ?_⟩
  · exact (Resolver.solves_of_search ended member).wellFormed
      (Predicate.wellFormed_of_readQuery isRead) grown.wellFormed
  · obtain ⟨clause, known, rfl⟩ := Resolver.search_steps _ _ _ 0 run ended
      derivation member step inside
    exact (grown.wellFormed clause known).head

theorem Engine.Grown.enter {settings : EngineSettings} {engine : Engine}
    (grown : engine.Grown settings) (line : ScriptLine) :
    (engine.enter line).Grown settings := by
  cases line with
  | knowledge text => exact .added grown text
  | _ => exact grown

/-! ## Marks -/

namespace Session

def faultMark : OutputFormat → String
  | .text => "Error: "
  | .json => OutputLine.faultMark

def reportsFault (format : OutputFormat) (line : String) : Bool :=
  (faultMark format).toList.isPrefixOf line.toList

theorem reportsFault_iff {format : OutputFormat} {line : String} :
    reportsFault format line = true ↔ (faultMark format).toList <+: line.toList :=
  List.isPrefixOf_iff_prefix

/-- A text with the lines of a reply: whole lines, of which one reports a fault exactly
if nothing was accepted. -/
structure Marked (format : OutputFormat) (reply : Reply) : Prop where
  closed : Closed reply.output
  marked : (∃ line ∈ linesOf reply.output, reportsFault format line = true) ↔
    reply.accepted = false

theorem marked_of_unmarked {format : OutputFormat} {output : String}
    (closed : Closed output)
    (unmarked : ∀ line ∈ linesOf output, reportsFault format line = false) :
    Marked format ⟨true, output⟩ where
  closed := closed
  marked := by
    refine iff_of_false ?_ nofun
    rintro ⟨line, member, marked⟩
    rw [unmarked line member] at marked
    cases marked

theorem marked_notice (format : OutputFormat) (interactive : Bool) :
    Marked format ⟨true, noticeText interactive⟩ := by
  cases interactive with
  | false => exact marked_of_unmarked (.inl rfl) (List.forall_mem_nil _)
  | true =>
      have lines : linesOf (noticeText true) = ["Knowledge added successfully!"] :=
        OutputLine.linesOf_page [.notice]
      refine marked_of_unmarked (.inr ⟨"Knowledge added successfully!", rfl⟩) ?_
      rw [lines]
      cases format <;> decide

/-- A record of JSON is on a line of its own. -/
theorem linesOf_record (line : OutputLine) : linesOf (line.text ++ "\n") = [line.text] := by
  have page := OutputLine.linesOf_page [line]
  rw [OutputLine.page, List.map_singleton, String.join_cons, String.join_nil,
    String.append_empty] at page
  exact page

theorem reportsFault_record (line : OutputLine) :
    reportsFault .json line.text = line.isRefusal :=
  OutputLine.isMarked_text line

theorem marked_fault (format : OutputFormat) (fault : Fault) :
    Marked format ⟨false, faultText format fault⟩ where
  closed := by
    cases format
    · exact .inr ⟨"Error: " ++ fault.message, rfl⟩
    · exact .inr ⟨fault.record.render, rfl⟩
  marked := by
    refine iff_of_true ?_ rfl
    cases format with
    | text =>
        obtain ⟨line, member, marked⟩ := Text.exists_linesOf_prefix
          (show '\r' ∉ "Error: ".toList ∧ '\n' ∉ "Error: ".toList by decide) fault.message
        exact ⟨line, member, reportsFault_iff.mpr marked⟩
    | json =>
        refine ⟨(OutputLine.refusal fault).text, ?_, reportsFault_record (.refusal fault)⟩
        rw [faultText, ← OutputLine.text, linesOf_record]
        exact List.mem_cons_self

theorem marked_answer {settings : EngineSettings} {engine : Engine}
    (grown : engine.Grown settings) {text : String} {r : Resolution}
    (asked : engine.ask text = some (.ok r)) (format : OutputFormat) (trace : Bool) :
    Marked format ⟨true, resolutionText format trace r⟩ := by
  cases format with
  | text =>
      obtain ⟨solutions, derivations⟩ := Engine.ask_wellFormed grown asked
      have plain := Resolution.plainText_reportLines trace solutions derivations
      have lines : linesOf (r.report trace) = r.reportLines trace := by
        rw [r.report_eq]
        exact Text.linesOf_page fun line member =>
          ⟨(plain line member).noReturn, (plain line member).noFeed⟩
      refine marked_of_unmarked ?_ fun line member => ?_
      · rw [resolutionText, r.report_eq]
        exact Text.closed_page _
      · rw [resolutionText, lines] at member
        rw [Bool.eq_false_iff, Ne, reportsFault_iff]
        exact (plain line member).unmarked
  | json =>
      refine marked_of_unmarked (.inr ⟨r.json.render, rfl⟩) fun line member => ?_
      rw [resolutionText, ← OutputLine.text, linesOf_record, List.mem_singleton] at member
      rw [member]
      exact reportsFault_record (.answer r)

/-- Every reply of a session can be told from its lines. -/
theorem MayReply.marked {settings : EngineSettings} {session : Session} {reply : Reply}
    (mayReply : session.MayReply reply) (grown : session.engine.Grown settings) :
    Marked session.format reply := by
  cases mayReply with
  | silent => exact marked_of_unmarked (.inl rfl) (List.forall_mem_nil _)
  | notice => exact marked_notice _ _
  | answer asked => exact marked_answer grown asked _ _
  | refusal fault => exact marked_fault _ fault

theorem Answers.forall_marked {settings : EngineSettings} {session after : Session}
    {lines : List ScriptLine} {replies : List Reply}
    (answers : session.Answers lines after replies)
    (grown : session.engine.Grown settings) :
    ∀ reply ∈ replies, Marked session.format reply := by
  induction answers with
  | nil session => exact List.forall_mem_nil _
  | cons here _ ih =>
      have step := enter_replies here
      have others := ih (step.engine ▸ grown.enter _)
      rw [step.format] at others
      exact List.forall_mem_cons.mpr ⟨step.shape.marked grown, others⟩

/-- A line of the whole output reports a fault exactly if an entry cannot be read. -/
theorem Answers.exists_reportsFault_iff {settings : EngineSettings}
    {session after : Session} {lines : List ScriptLine} {replies : List Reply}
    (answers : session.Answers lines after replies)
    (grown : session.engine.Grown settings) :
    (∃ line ∈ linesOf (outputOf replies), reportsFault session.format line = true) ↔
      ∃ line ∈ lines, line.isAccepted = false := by
  have marked := answers.forall_marked grown
  have cut : linesOf (outputOf replies) =
      replies.flatMap fun reply => linesOf reply.output := by
    rw [outputOf, Text.linesOf_join (List.forall_mem_map.mpr fun reply member =>
      (marked reply member).closed), List.flatMap_map]
  have flags : (∃ flag ∈ replies.map Reply.accepted, flag = false) ↔
      ∃ flag ∈ lines.map ScriptLine.isAccepted, flag = false := by
    rw [answers.accepted]
  simp only [List.mem_map, exists_exists_and_eq_and] at flags
  rw [← flags, cut]
  constructor
  · rintro ⟨line, member, reports⟩
    obtain ⟨reply, among, inside⟩ := List.mem_flatMap.mp member
    exact ⟨reply, among, (marked reply among).marked.mp ⟨line, inside, reports⟩⟩
  · rintro ⟨reply, among, refused⟩
    obtain ⟨line, inside, reports⟩ := (marked reply among).marked.mpr refused
    exact ⟨line, List.mem_flatMap.mpr ⟨reply, among, inside⟩, reports⟩

end Session

end HornLogic
