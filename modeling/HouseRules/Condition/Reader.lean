import HouseRules.Token.Reader

/-!
# Reading conditions

A statement is written `[not] verb parameters… [and|or|xor]` or
`[not] condition parameters… [and|or|xor]`. The first word decides between the two, a verb before a
condition; verbs have to answer yes or no. The last statement of a condition has no connective.

Reference: `parse_statement`, `parse_statements` (specification 4.2, E2.3).
-/

namespace HouseRules

/-- The error for a line that is no statement. -/
def Statement.invalid (condition line reason : String) : CompileError :=
  .invalidStatement condition line reason

/-- Reads what a statement of a condition asks, from its first word and the words after it. -/
def Question.read (s : Scope) (condition line head : String) (rest : List String) :
    Compiled Question :=
  match Verb.ofWord? head with
  | some verb =>
    if verb.returnsBool then
      (Token.readParameters s condition verb rest).map (.call verb)
    else
      .error (Statement.invalid condition line ("`" ++ verb.keyword ++
        "` does not return a boolean"))
  | none =>
    match s.condition? head with
    | some id =>
      if rest.isEmpty then .ok (.condition id none)
      else (Token.readAll s condition rest).map fun tokens => .condition id (some tokens)
    | none =>
      .error (Statement.invalid condition line ("`" ++ head ++
        "` is neither an operation nor a condition"))

/-- Parts a statement's tokens into `not`, the words between, and the connective. -/
def Statement.part (tokens : List String) : Bool × List String × Option Connective :=
  let (inverted, tokens) :=
    match tokens with
    | "not" :: rest => (true, rest)
    | _ => (false, tokens)
  match tokens.getLast?.bind Connective.ofWord? with
  | some connective => (inverted, tokens.dropLast, some connective)
  | none => (inverted, tokens, none)

/-- Reads one statement of a condition. Reference: `statements.parse_statement`. -/
def Statement.read (s : Scope) (condition line : String) : Compiled Statement :=
  let (inverted, words, connective) := part (s.tokens line)
  match words with
  | [] => .error (invalid condition line "empty statement")
  | head :: rest => (Question.read s condition line head rest).map (⟨inverted, ·, connective⟩)

/-- Reads the statements of a condition. Reference: `statements.parse_statements`. -/
def Condition.readStatements (s : Scope) (condition : String) (body : List String) :
    Compiled (List Statement) := do
  if body.isEmpty then throw (.invalidComponent "condition" condition "has no statements")
  let statements ← body.mapM (Statement.read s condition)
  if (statements.getLast?.bind (·.connective)).isSome then
    throw (Statement.invalid condition (body.getLast?.getD "")
      "connective without a following statement")
  return statements

end HouseRules
