import HornLogic.Text.Blank
import HornLogic.Text.Line
import Mathlib.Data.List.DropRight
import Mathlib.Data.List.Infix

/-!
# Trimmed texts and lines

What trimming leaves of a text, without the steps that trim it, and the lines
of a text that was put together from lines, from two texts with a line feed
between them, or from the symbols of another alphabet.
-/

namespace HornLogic.Text

/-! ## Cut texts -/

/-- A character of one kind is none that is not of this kind. -/
theorem ne_of_kind {p : Char → Bool} {c mark : Char} (kind : p c = true)
    (other : p mark = false) : c ≠ mark := by
  rintro rfl
  rw [kind] at other
  cases other

/-- A text is cut behind its front where the front cannot go on. -/
theorem cut_append {p : Char → Bool} {front back : List Char}
    (inside : ∀ c ∈ front, p c = true) (stops : ∀ c ∈ back.head?, p c = false) :
    (front ++ back).takeWhile p = front ∧ (front ++ back).dropWhile p = back := by
  rw [List.takeWhile_append_of_pos inside, List.dropWhile_append_of_pos inside]
  cases back with
  | nil => simp
  | cons c back => simp [stops c rfl]

theorem skipSpace_cons {c : Char} (solid : isSpace c = false)
    (rest : List Char) : skipSpace (c :: rest) = c :: rest :=
  List.dropWhile_cons_of_neg (by simp [solid])

/-! ## Trimmed texts -/

/-- A text, and what is left of it without the white space at both ends. -/
inductive Trimmed : List Char → List Char → Prop where
  | mk {front middle back : List Char}
      (before : ∀ c ∈ front, isBlank c = true)
      (behind : ∀ c ∈ back, isBlank c = true)
      (starts : ∀ c ∈ middle.head?, isBlank c = false)
      (stops : ∀ c ∈ middle.getLast?, isBlank c = false) :
      Trimmed (front ++ (middle ++ back)) middle

theorem trimStart_of_head {text : List Char}
    (starts : ∀ c ∈ text.head?, isBlank c = false) : trimStart text = text := by
  cases text with
  | nil => rfl
  | cons c rest => exact List.dropWhile_cons_of_neg (by simp [starts c rfl])

theorem trimEnd_of_getLast {text : List Char}
    (stops : ∀ c ∈ text.getLast?, isBlank c = false) : trimEnd text = text := by
  have kept : trimStart text.reverse = text.reverse :=
    trimStart_of_head (by rwa [List.head?_reverse])
  calc trimEnd text = (trimStart text.reverse).reverse := rfl
    _ = text := by rw [kept, List.reverse_reverse]

theorem head_trimStart (text : List Char) :
    ∀ c ∈ (trimStart text).head?, isBlank c = false := by
  intro c member
  have first := List.head?_dropWhile_not isBlank text
  change (trimStart text).head? = some c at member
  rw [← trimStart, member] at first
  exact first

/-- What is dropped behind a text is white space. -/
theorem exists_trimEnd (text : List Char) : ∃ back,
    (∀ c ∈ back, isBlank c = true) ∧ text = trimEnd text ++ back :=
  ⟨text.rtakeWhile isBlank, fun _ => List.mem_rtakeWhile_imp,
    List.rdropWhile_append_rtakeWhile.symm⟩

theorem trimmed_trim (text : List Char) : Trimmed text (trim text) := by
  obtain ⟨back, behind, split⟩ := exists_trimEnd (trimStart text)
  have whole : text = text.takeWhile isBlank ++ (trim text ++ back) := by
    rw [trim, ← split, trimStart, List.takeWhile_append_dropWhile]
  have isTrimmed : Trimmed (text.takeWhile isBlank ++ (trim text ++ back))
      (trim text) := by
    refine .mk (fun c => List.mem_takeWhile_imp) behind ?_ ?_
    · intro c member
      refine head_trimStart text c ?_
      rw [split]
      exact List.mem_head?_append_of_mem_head? member
    · intro c member
      refine head_trimStart (trimStart text).reverse c ?_
      rw [← List.getLast?_reverse]
      exact member
  rwa [← whole] at isTrimmed

/-- Trimming drops the white space at both ends and nothing else. -/
theorem trimmed_iff {text middle : List Char} :
    Trimmed text middle ↔ trim text = middle := by
  constructor
  · rintro @⟨front, middle, back, before, behind, starts, stops⟩
    have front_dropped :
        trimStart (front ++ (middle ++ back)) = trimStart (middle ++ back) :=
      List.dropWhile_append_of_pos before
    rw [trim, front_dropped]
    cases middle with
    | nil =>
        rw [List.nil_append, trimStart, List.dropWhile_eq_nil_iff.mpr behind]
        rfl
    | cons c rest =>
        have solid : trimStart (c :: rest ++ back) = c :: rest ++ back :=
          trimStart_of_head starts
        rw [solid, trimEnd, List.reverse_append, List.dropWhile_append_of_pos
          fun c member => behind c (List.mem_reverse.mp member)]
        exact trimEnd_of_getLast stops
  · rintro rfl
    exact trimmed_trim text

/-- White space behind a text does not count. -/
theorem trim_append {text back : List Char}
    (behind : ∀ c ∈ back, isBlank c = true) : trim (text ++ back) = trim text := by
  generalize same : trim text = middle
  obtain ⟨before, after, starts, stops⟩ := trimmed_iff.mpr same
  rw [← trimmed_iff, List.append_assoc, List.append_assoc]
  exact .mk before (List.forall_mem_append.mpr ⟨after, behind⟩) starts stops

theorem trimmed_self {text : List Char}
    (starts : ∀ c ∈ text.head?, isBlank c = false)
    (stops : ∀ c ∈ text.getLast?, isBlank c = false) : Trimmed text text := by
  rw [trimmed_iff, trim, trimStart_of_head starts, trimEnd_of_getLast stops]

@[simp] theorem trim_trim (text : List Char) : trim (trim text) = trim text := by
  generalize same : trim text = middle
  obtain ⟨_, _, starts, stops⟩ := trimmed_iff.mpr same
  exact trimmed_iff.mp (trimmed_self starts stops)

/-- A trimmed text neither starts nor ends with white space. -/
theorem Trimmed.ends {text middle : List Char} (trimmed : Trimmed text middle) :
    (∀ c ∈ middle.head?, isBlank c = false) ∧
      ∀ c ∈ middle.getLast?, isBlank c = false := by
  obtain ⟨_, _, starts, stops⟩ := trimmed
  exact ⟨starts, stops⟩

/-- Nothing is dropped in front of a text that starts with no white space. -/
theorem trim_isPrefix {text : List Char}
    (starts : ∀ c ∈ text.head?, isBlank c = false) : trim text <+: text := by
  obtain ⟨back, _, split⟩ := exists_trimEnd text
  rw [trim, trimStart_of_head starts]
  exact ⟨back, split.symm⟩

theorem trim_isInfix (text : List Char) : trim text <:+: text := by
  obtain ⟨back, _, split⟩ := exists_trimEnd (trimStart text)
  have whole : trim text <+: trimStart text := ⟨back, split.symm⟩
  exact whole.isInfix.trans (List.dropWhile_suffix _).isInfix

theorem trim_trimStart {text : List Char}
    (stops : ∀ c ∈ text.getLast?, isBlank c = false) :
    trim (trimStart text) = trimStart text := by
  rw [trim, trimStart_of_head (head_trimStart text)]
  refine trimEnd_of_getLast fun c final => stops c ?_
  rw [← List.takeWhile_append_dropWhile (p := isBlank) (l := text)]
  exact List.mem_getLast?_append_of_mem_getLast? final

theorem mem_of_mem_trim {text : List Char} {c : Char} (member : c ∈ trim text) :
    c ∈ text := by
  generalize same : trim text = middle at member
  obtain ⟨_, _, _, _⟩ := trimmed_iff.mpr same
  simp [member]

/-! ## Ends and lengths -/

theorem dropLastIf_isPrefix (last : Char) (text : List Char) :
    dropLastIf last text <+: text := by
  rw [dropLastIf]
  split
  · rename_i c rest same
    split
    · refine ⟨[c], ?_⟩
      rw [← List.reverse_cons, ← same, List.reverse_reverse]
    · exact List.prefix_refl _
  · exact List.prefix_refl _

theorem byteLength_append (front back : List Char) :
    byteLength (front ++ back) = byteLength front + byteLength back := by
  induction front with
  | nil => rw [List.nil_append, byteLength, Nat.zero_add]
  | cons c front ih => rw [List.cons_append, byteLength, byteLength, ih, Nat.add_assoc]

/-- The number of bytes is the one of the text as a string. -/
theorem utf8ByteSize_ofList (text : List Char) :
    (String.ofList text).utf8ByteSize = byteLength text := by
  induction text with
  | nil => rfl
  | cons c rest ih =>
      rw [String.ofList_cons, String.utf8ByteSize_append, String.utf8ByteSize_singleton,
        ih, byteLength]

/-- The length of a front of a text is a position in it. -/
theorem isValid_byteLength (front back : List Char) :
    (⟨byteLength front⟩ : String.Pos.Raw).IsValid (String.ofList (front ++ back)) :=
  String.Pos.Raw.isValid_iff_exists_append.mpr ⟨String.ofList front, String.ofList back,
    String.ofList_append, by rw [← utf8ByteSize_ofList]; rfl⟩

/-! ## Lines -/

section Lines

variable {α : Type} [DecidableEq α] {carriageReturn lineFeed : α}

/-- A line that is not empty and in which no end of a line stands. -/
structure IsLine (carriageReturn lineFeed : α) (line : List α) : Prop where
  nonempty : line ≠ []
  noReturn : carriageReturn ∉ line
  noFeed : lineFeed ∉ line

omit [DecidableEq α] in
theorem IsLine.stops {line : List α}
    (isLine : IsLine carriageReturn lineFeed line) :
    ∀ symbol ∈ line.getLast?, symbol ≠ carriageReturn := by
  rintro symbol final rfl
  exact isLine.noReturn (List.mem_of_getLast? final)

/-- Up to the next line feed the line is unfinished. -/
theorem cutLines_append {line : List α} (noFeed : lineFeed ∉ line)
    (unfinished rest : List α) :
    cutLines carriageReturn lineFeed unfinished (line ++ rest) =
      cutLines carriageReturn lineFeed (line.reverse ++ unfinished) rest := by
  induction line generalizing unfinished with
  | nil => rfl
  | cons symbol line ih =>
      have other : symbol ≠ lineFeed := List.ne_of_not_mem_cons noFeed |>.symm
      rw [List.cons_append, cutLines, if_neg other,
        ih (List.not_mem_of_not_mem_cons noFeed), List.reverse_cons,
        List.append_assoc, List.singleton_append]

/-- A line without a carriage return at its end is closed as it is. -/
theorem closeLine_reverse {line : List α}
    (stops : ∀ symbol ∈ line.getLast?, symbol ≠ carriageReturn) :
    closeLine carriageReturn line.reverse = line := by
  cases same : line.reverse with
  | nil =>
      rw [List.reverse_eq_nil_iff.mp same]
      rfl
  | cons last before =>
      have ends : line.getLast? = some last := by
        rw [← List.head?_reverse, same]
        rfl
      rw [closeLine, if_neg (stops last ends), ← same, List.reverse_reverse]

/-- Closing a line drops nothing but a carriage return at its end. -/
theorem exists_closeLine (carriageReturn : α) (unfinished : List α) : ∃ back,
    (∀ symbol ∈ back, symbol = carriageReturn) ∧
      unfinished.reverse = closeLine carriageReturn unfinished ++ back := by
  cases unfinished with
  | nil => exact ⟨[], List.forall_mem_nil _, rfl⟩
  | cons last before =>
      by_cases ends : last = carriageReturn
      · exact ⟨[last], by simp [ends], by simp [closeLine, ends]⟩
      · exact ⟨[], List.forall_mem_nil _, by simp [closeLine, ends]⟩

/-- The last line needs no line feed. -/
theorem cutLines_nil {unfinished : List α} (nonempty : unfinished ≠ []) :
    cutLines carriageReturn lineFeed unfinished [] = [unfinished.reverse] := by
  cases unfinished with
  | nil => exact absurd rfl nonempty
  | cons last before => rfl

theorem cutLines_lineFeed (unfinished rest : List α) :
    cutLines carriageReturn lineFeed unfinished (lineFeed :: rest) =
      closeLine carriageReturn unfinished ::
        cutLines carriageReturn lineFeed [] rest := by
  rw [cutLines, if_pos rfl]

/-- A text without line feeds is one line. -/
theorem cutLines_line {line : List α} (nonempty : line ≠ [])
    (noFeed : lineFeed ∉ line) :
    cutLines carriageReturn lineFeed [] line = [line] := by
  calc cutLines carriageReturn lineFeed [] line
      = cutLines carriageReturn lineFeed [] (line ++ []) := by rw [List.append_nil]
    _ = cutLines carriageReturn lineFeed (line.reverse ++ []) [] :=
        cutLines_append noFeed [] []
    _ = [line] := by
        rw [List.append_nil, cutLines_nil (by simp [nonempty]), List.reverse_reverse]

/-- Lines with line feeds between them are cut apart again. -/
theorem cutLines_intercalate {texts : List (List α)}
    (each : ∀ line ∈ texts, IsLine carriageReturn lineFeed line) :
    cutLines carriageReturn lineFeed [] ([lineFeed].intercalate texts) =
      texts := by
  induction texts with
  | nil => rfl
  | cons line texts ih =>
      obtain ⟨isLine, others⟩ := List.forall_mem_cons.mp each
      cases texts with
      | nil =>
          rw [List.intercalate_singleton,
            cutLines_line isLine.nonempty isLine.noFeed]
      | cons line' texts =>
          rw [List.intercalate_cons_cons, List.append_assoc,
            cutLines_append isLine.noFeed, List.append_nil,
            List.singleton_append, cutLines_lineFeed,
            closeLine_reverse isLine.stops, ih others]

/-- Lines with a line feed behind each of them are cut apart again, empty ones too. -/
theorem cutLines_flatMap {texts : List (List α)}
    (each : ∀ line ∈ texts, carriageReturn ∉ line ∧ lineFeed ∉ line) :
    cutLines carriageReturn lineFeed [] (texts.flatMap (· ++ [lineFeed])) = texts := by
  induction texts with
  | nil => rfl
  | cons line texts ih =>
      obtain ⟨⟨noReturn, noFeed⟩, others⟩ := List.forall_mem_cons.mp each
      have stops : ∀ symbol ∈ line.getLast?, symbol ≠ carriageReturn := by
        rintro symbol final rfl
        exact noReturn (List.mem_of_getLast? final)
      rw [List.flatMap_cons, List.append_assoc, cutLines_append noFeed, List.append_nil,
        List.singleton_append, cutLines_lineFeed, closeLine_reverse stops, ih others]

/-- A line feed ends a line: the lines behind it are those of the text behind it,
and the last line in front of it is the one that the text in front leaves
unfinished. -/
theorem cutLines_append_lineFeed (carriageReturn lineFeed : α)
    (unfinished front back : List α) :
    ∃ lines last,
      cutLines carriageReturn lineFeed unfinished front =
        lines ++ cutLines carriageReturn lineFeed last [] ∧
      cutLines carriageReturn lineFeed unfinished (front ++ lineFeed :: back) =
        lines ++ closeLine carriageReturn last ::
          cutLines carriageReturn lineFeed [] back := by
  induction front generalizing unfinished with
  | nil => exact ⟨[], unfinished, rfl, cutLines_lineFeed unfinished back⟩
  | cons symbol front ih =>
      by_cases feed : symbol = lineFeed
      · obtain ⟨lines, last, short, long⟩ := ih []
        refine ⟨closeLine carriageReturn unfinished :: lines, last, ?_, ?_⟩
        · rw [feed, cutLines_lineFeed, short, List.cons_append]
        · rw [feed, List.cons_append, cutLines_lineFeed, long, List.cons_append]
      · obtain ⟨lines, last, short, long⟩ := ih (symbol :: unfinished)
        exact ⟨lines, last, by rw [cutLines, if_neg feed, short],
          by rw [List.cons_append, cutLines, if_neg feed, long]⟩

/-- A line stands in the text behind as many line feeds as there are lines in front of
it. -/
theorem exists_place_of_cutLines {unfinished text line : List α} {front back : List (List α)}
    (noFeed : lineFeed ∉ unfinished)
    (split : cutLines carriageReturn lineFeed unfinished text = front ++ line :: back) :
    ∃ before behind, unfinished.reverse ++ text = before ++ (line ++ behind) ∧
      before.count lineFeed = front.length := by
  induction text generalizing unfinished front with
  | nil =>
      cases unfinished with
      | nil => simp [cutLines] at split
      | cons last rest =>
          rw [cutLines_nil (List.cons_ne_nil _ _)] at split
          rcases List.append_eq_singleton_iff.mp split.symm with ⟨rfl, same⟩ | ⟨_, same⟩ <;>
            cases same
          exact ⟨[], [], by simp, List.count_nil⟩
  | cons symbol text ih =>
      by_cases feed : symbol = lineFeed
      · rw [feed, cutLines_lineFeed] at split
        cases front with
        | nil =>
            obtain ⟨closed, _⟩ := List.cons.inj split
            obtain ⟨dropped, _, whole⟩ := exists_closeLine carriageReturn unfinished
            refine ⟨[], dropped ++ lineFeed :: text, ?_, List.count_nil⟩
            rw [whole, closed, feed, List.nil_append, List.append_assoc]
        | cons first front =>
            obtain ⟨_, later⟩ := List.cons.inj split
            obtain ⟨before, behind, whole, counted⟩ := ih List.not_mem_nil later
            refine ⟨unfinished.reverse ++ lineFeed :: before, behind, ?_, ?_⟩
            · rw [feed, List.append_assoc, List.cons_append, ← whole]
              rfl
            · rw [List.count_append, List.count_cons_self, counted,
                List.count_eq_zero.mpr (by simpa using noFeed), List.length_cons,
                Nat.zero_add]
      · rw [cutLines, if_neg feed] at split
        obtain ⟨before, behind, whole, counted⟩ :=
          ih (List.not_mem_cons_of_ne_of_not_mem (Ne.symm feed) noFeed) split
        refine ⟨before, behind, ?_, counted⟩
        rw [← whole, List.reverse_cons, List.append_assoc, List.singleton_append]

theorem lineFeed_not_mem_cutLines {unfinished text : List α}
    (noFeed : lineFeed ∉ unfinished) :
    ∀ line ∈ cutLines carriageReturn lineFeed unfinished text,
      lineFeed ∉ line := by
  induction text generalizing unfinished with
  | nil =>
      cases unfinished with
      | nil => exact List.forall_mem_nil _
      | cons last before =>
          rw [cutLines, List.forall_mem_singleton, List.mem_reverse]
          exact noFeed
  | cons symbol text ih =>
      by_cases feed : symbol = lineFeed
      · rw [feed, cutLines_lineFeed]
        refine List.forall_mem_cons.mpr ⟨fun member => noFeed ?_, ih (by simp)⟩
        obtain ⟨back, _, split⟩ := exists_closeLine carriageReturn unfinished
        rw [← List.mem_reverse, split]
        exact List.mem_append_left _ member
      · rw [cutLines, if_neg feed]
        exact ih (List.not_mem_cons_of_ne_of_not_mem (Ne.symm feed) noFeed)

end Lines

theorem lineFeed_not_mem_linesOf {text line : String}
    (member : line ∈ linesOf text) : '\n' ∉ line.toList := by
  obtain ⟨cut, isCut, rfl⟩ := List.mem_map.mp member
  rw [String.toList_ofList]
  exact lineFeed_not_mem_cutLines List.not_mem_nil cut isCut

/-! ## Lines of texts put together -/

theorem cutLines_append_feed {α : Type} [DecidableEq α] (carriageReturn lineFeed : α)
    (unfinished front back : List α) :
    cutLines carriageReturn lineFeed unfinished (front ++ lineFeed :: back) =
      cutLines carriageReturn lineFeed unfinished (front ++ [lineFeed]) ++
        cutLines carriageReturn lineFeed [] back := by
  induction front generalizing unfinished with
  | nil =>
      rw [List.nil_append, List.nil_append, cutLines_lineFeed, cutLines_lineFeed]
      rfl
  | cons symbol front ih =>
      rw [List.cons_append, List.cons_append, cutLines, cutLines, ih, ih]
      split <;> rfl

/-- A text of whole lines: nothing is behind its last line feed. -/
def Closed (text : String) : Prop :=
  text = "" ∨ ∃ front, text = front ++ "\n"

theorem linesOf_append {front : String} (closed : Closed front) (back : String) :
    linesOf (front ++ back) = linesOf front ++ linesOf back := by
  rcases closed with rfl | ⟨front, rfl⟩
  · rw [String.empty_append]
    rfl
  · have cut := cutLines_append_feed '\r' '\n' [] front.toList back.toList
    have whole : (front ++ "\n" ++ back).toList = front.toList ++ '\n' :: back.toList := by
      simp
    have first : (front ++ "\n").toList = front.toList ++ ['\n'] := by simp
    rw [linesOf, linesOf, linesOf, lines, lines, lines, whole, first, cut, List.map_append]

/-- Texts of whole lines have their lines one after the other. -/
theorem linesOf_join {texts : List String} (closed : ∀ text ∈ texts, Closed text) :
    linesOf (String.join texts) = texts.flatMap linesOf := by
  induction texts with
  | nil => rfl
  | cons text texts ih =>
      obtain ⟨first, others⟩ := List.forall_mem_cons.mp closed
      have split : String.join (text :: texts) = text ++ String.join texts := by simp
      rw [split, linesOf_append first, ih others, List.flatMap_cons]

/-- Lines without ends of lines in them are cut apart again. -/
theorem linesOf_page {texts : List String}
    (flat : ∀ text ∈ texts, '\r' ∉ text.toList ∧ '\n' ∉ text.toList) :
    linesOf (String.join (texts.map (· ++ "\n"))) = texts := by
  have whole : (String.join (texts.map (· ++ "\n"))).toList =
      (texts.map String.toList).flatMap (· ++ ['\n']) := by
    simp [List.flatMap_map]
  rw [linesOf, lines, whole, cutLines_flatMap (List.forall_mem_map.mpr flat), List.map_map]
  simp

theorem closed_page (texts : List String) :
    Closed (String.join (texts.map (· ++ "\n"))) := by
  rcases List.eq_nil_or_concat texts with rfl | ⟨front, last, rfl⟩
  · exact .inl rfl
  · refine .inr ⟨String.join (front.map (· ++ "\n")) ++ last, ?_⟩
    simp [String.append_assoc]

/-- What a text begins with, one of its lines begins with. -/
theorem exists_linesOf_prefix {mark : String}
    (flat : '\r' ∉ mark.toList ∧ '\n' ∉ mark.toList) (rest : String) :
    ∃ line ∈ linesOf (mark ++ rest ++ "\n"), mark.toList <+: line.toList := by
  obtain ⟨front, back, split, noFeed⟩ := List.eq_append_cons_of_mem
    (show '\n' ∈ rest.toList ++ ['\n'] from List.mem_append_right _ List.mem_cons_self)
  have text : (mark ++ rest ++ "\n").toList = (mark.toList ++ front) ++ '\n' :: back := by
    simp [← split]
  have first : '\n' ∉ mark.toList ++ front := List.not_mem_append flat.2 noFeed
  obtain ⟨dropped, returns, whole⟩ := exists_closeLine '\r' (mark.toList ++ front).reverse
  refine ⟨String.ofList (closeLine '\r' (mark.toList ++ front).reverse), ?_, ?_⟩
  · rw [linesOf, lines, text, cutLines_append first, List.append_nil, cutLines_lineFeed]
    exact List.mem_cons_self
  · rw [List.reverse_reverse] at whole
    rw [String.toList_ofList]
    rcases List.append_eq_append_iff.mp whole with ⟨more, closed, _⟩ | ⟨inside, begins, same⟩
    · exact ⟨more, closed.symm⟩
    · -- nothing of the mark is dropped, for there is no carriage return in it
      cases inside with
      | nil =>
          rw [List.append_nil] at begins
          exact ⟨[], by rw [List.append_nil, ← begins]⟩
      | cons c inside =>
          have isReturn : c = '\r' := returns c (by rw [same]; exact List.mem_cons_self)
          refine absurd ?_ flat.1
          rw [begins, isReturn]
          exact List.mem_append_right _ List.mem_cons_self

/-! ## Spelling -/

/-- A spelling of symbols in another alphabet.  The two symbols at the end of a
line are spelled by one symbol each, which stands in no other spelling. -/
structure Spelling {α β : Type} (spell : α → List β)
    (carriageReturn lineFeed : α) (carriageReturn' lineFeed' : β) : Prop where
  nonempty (symbol : α) : spell symbol ≠ []
  spell_return : spell carriageReturn = [carriageReturn']
  spell_feed : spell lineFeed = [lineFeed']
  eq_return {symbol : α} : carriageReturn' ∈ spell symbol → symbol = carriageReturn
  eq_feed {symbol : α} : lineFeed' ∈ spell symbol → symbol = lineFeed

section Spelling

variable {α β : Type} [DecidableEq α] [DecidableEq β] {spell : α → List β}
variable {carriageReturn lineFeed : α} {carriageReturn' lineFeed' : β}

theorem Spelling.closeLine
    (spelling : Spelling spell carriageReturn lineFeed carriageReturn' lineFeed')
    (unfinished : List α) :
    closeLine carriageReturn' (unfinished.reverse.flatMap spell).reverse =
      (closeLine carriageReturn unfinished).flatMap spell := by
  cases unfinished with
  | nil => rfl
  | cons last before =>
      rw [List.reverse_cons, List.flatMap_append, List.flatMap_singleton]
      by_cases ends : last = carriageReturn
      · rw [ends, spelling.spell_return, List.reverse_concat, Text.closeLine,
          if_pos rfl, Text.closeLine, if_pos rfl, List.reverse_reverse]
      · rw [closeLine_reverse, Text.closeLine, if_neg ends, List.reverse_cons,
          List.flatMap_append, List.flatMap_singleton]
        rw [List.getLast?_append_of_ne_nil _ (spelling.nonempty last)]
        rintro symbol final rfl
        exact ends (spelling.eq_return (List.mem_of_getLast? final))

/-- A spelled text has the lines of the text, spelled. -/
theorem Spelling.cutLines
    (spelling : Spelling spell carriageReturn lineFeed carriageReturn' lineFeed')
    (unfinished text : List α) :
    cutLines carriageReturn' lineFeed' (unfinished.reverse.flatMap spell).reverse
        (text.flatMap spell) =
      (cutLines carriageReturn lineFeed unfinished text).map
        (·.flatMap spell) := by
  induction text generalizing unfinished with
  | nil =>
      cases unfinished with
      | nil => rfl
      | cons last before =>
          rw [List.flatMap_nil, cutLines_nil, cutLines_nil (List.cons_ne_nil _ _),
            List.reverse_reverse, List.map_singleton]
          simp [spelling.nonempty last]
  | cons symbol text ih =>
      rw [List.flatMap_cons]
      by_cases feed : symbol = lineFeed
      · rw [feed, spelling.spell_feed, List.singleton_append, cutLines_lineFeed,
          cutLines_lineFeed, spelling.closeLine, List.map_cons, ← ih []]
        rfl
      · have noFeed : lineFeed' ∉ spell symbol := fun member =>
          feed (spelling.eq_feed member)
        rw [cutLines_append noFeed, Text.cutLines, if_neg feed,
          ← ih (symbol :: unfinished), List.reverse_cons, List.flatMap_append,
          List.flatMap_singleton, List.reverse_append]

end Spelling

end HornLogic.Text
