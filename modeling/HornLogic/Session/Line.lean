import HornLogic.Statement.Reading

/-!
# Script lines

A script has one entry on each line: a query behind `?-`, a comment behind
`%`, or knowledge.
-/

namespace HornLogic

inductive ScriptLine where
  | blank
  | comment
  | query (text : String)
  | knowledge (text : String)
deriving DecidableEq, Inhabited

namespace ScriptLine

/-- Tell by its first characters what a trimmed line is. -/
def ofTrimmed : List Char → ScriptLine
  | [] => .blank
  | '%' :: _ => .comment
  | '?' :: '-' :: rest => .query (String.ofList (Text.trim rest))
  | line => .knowledge (String.ofList line)

/-- Tell what a line is; white space around it and behind `?-` does not count. -/
def classify (line : String) : ScriptLine :=
  ofTrimmed (Text.trim line.toList)

end ScriptLine

end HornLogic
