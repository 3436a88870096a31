/-!
# Lines

A line ends at a line feed, and one carriage return directly before that line
feed belongs to the line's end.  A carriage return anywhere else is an
ordinary symbol, and an empty rest after the last line feed is no line.  The
rule is stated for any alphabet, so that it cuts texts and bytes alike.
-/

namespace HornLogic.Text

/-- The line held in reverse, without the carriage return at its end. -/
def closeLine {α : Type} [DecidableEq α] (carriageReturn : α) : List α → List α
  | [] => []
  | last :: before =>
      if last = carriageReturn then before.reverse else (last :: before).reverse

/-- Cut a stream into lines, the first list being the unfinished line in reverse. -/
def cutLines {α : Type} [DecidableEq α] (carriageReturn lineFeed : α) :
    List α → List α → List (List α)
  | [], [] => []
  | last :: before, [] => [(last :: before).reverse]
  | unfinished, symbol :: rest =>
      if symbol = lineFeed then
        closeLine carriageReturn unfinished ::
          cutLines carriageReturn lineFeed [] rest
      else
        cutLines carriageReturn lineFeed (symbol :: unfinished) rest

def lines (text : List Char) : List (List Char) :=
  cutLines '\r' '\n' [] text

def linesOf (text : String) : List String :=
  (lines text.toList).map String.ofList

/--
The lines of a stream of bytes.  A line that is not well-formed UTF-8 has no
text.
-/
def linesOfBytes (bytes : List UInt8) : List (Option String) :=
  (cutLines 13 10 [] bytes).map fun line =>
    String.fromUTF8? ⟨line.toArray⟩

end HornLogic.Text
