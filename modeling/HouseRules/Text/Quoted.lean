import HouseRules.Text.Blank

/-!
# Lines with quoted text

A double quote opens or closes quoted text. Two readers of a line look at quotes: `cutComment` drops
everything from the first `#` that is not quoted, and `tokens` cuts a line at white space that is
not quoted, so that `"draw pile"` is one token and keeps its quotes. A quote that is never closed
reaches to the end of the line.

Reference: `tokens.split_line` and the comments of `RuleDocument.parse` (specification E2, E2.4).
-/

namespace HouseRules.Text

/-- The characters before the first `#` outside quotes; `quoted` says whether a quote is open. -/
def cutCommentFrom (quoted : Bool) : List Char → List Char
  | [] => []
  | c :: cs =>
    if c == '"' then c :: cutCommentFrom (!quoted) cs
    else if c == '#' && !quoted then []
    else c :: cutCommentFrom quoted cs

/-- The line without its comment. -/
def cutComment (s : String) : String := String.ofList (cutCommentFrom false s.toList)

/-- The pieces of a line between unquoted white space; `quoted` says whether a quote is open. -/
def quotedPieces (quoted : Bool) : List Char → List (List Char)
  | [] => [[]]
  | c :: cs =>
    if c == '"' then attach c (quotedPieces (!quoted) cs)
    else if isBlank c && !quoted then [] :: quotedPieces quoted cs
    else attach c (quotedPieces quoted cs)

/-- The tokens of a line: words, where quoted text counts as part of a word. -/
def tokens (s : String) : List String :=
  ((quotedPieces false s.toList).filter fun piece => !piece.isEmpty).map String.ofList

/-- The text between two quotes that enclose a token. -/
def unquote? (token : String) : Option String :=
  match token.toList with
  | '"' :: cs =>
    match cs.getLast? with
    | some '"' => some (String.ofList cs.dropLast)
    | _ => none
  | _ => none

end HouseRules.Text
