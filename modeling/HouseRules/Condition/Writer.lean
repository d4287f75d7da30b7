import HouseRules.Condition.Reader
import HouseRules.Token.Writer

/-!
# Writing statements

A statement is written as the words that `Statement.part` parts again: `not`, the first word of the
question and its parameters, and the connective. Texts may hold blanks, so a word here is a token of
the line, not a run of letters.

Reference: none; the other direction of `parse_statement`.
-/

namespace HouseRules

/-- The words of a question. -/
def Question.words (s : Scope) : Question → List String
  | .call verb parameters => verb.keyword :: parameters.map (Token.write s)
  | .condition id overrides =>
    s.conditionName id :: (overrides.getD []).map (Token.write s)

/-- The words of a statement. -/
def Statement.words (s : Scope) (statement : Statement) : List String :=
  (if statement.inverted then ["not"] else []) ++ statement.question.words s ++
    (statement.connective.map Connective.word).toList

end HouseRules
