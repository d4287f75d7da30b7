import HouseRules.Token

/-!
# Conditions

A condition is a list of statements joined from left to right by connectives: the verdict of the
first is combined with the second, the result with the third, and so on. `Connective.decides` says
when the next statement cannot matter any more; evaluation then stops, whatever connectives follow.

Reference: `Condition`, `ConditionalStatement` (specification 4.5, E4).
-/

namespace HouseRules

/-- How a statement joins the next one. Reference: `Connective`. -/
inductive Connective where
  | and
  | or
  | xor
  deriving Repr, DecidableEq, Inhabited

namespace Connective

/-- The connective a word names. -/
def ofWord? : String → Option Connective
  | "and" => some .and
  | "or" => some .or
  | "xor" => some .xor
  | _ => none

/-- The word for a connective. -/
def word : Connective → String
  | .and => "and"
  | .or => "or"
  | .xor => "xor"

/-- The word for a connective names it. -/
@[simp] theorem ofWord?_word (c : Connective) :
    ofWord? c.word = some c := by
  cases c <;> rfl

/-- Whether the verdict so far decides the joint one. Reference: `Connective.short_circuits`. -/
def decides (c : Connective) (sofar : Bool) : Bool :=
  match c with
  | .and => !sofar
  | .or => sofar
  | .xor => false

/-- The joint verdict. Reference: `Connective.combine`. -/
def combine (c : Connective) (sofar next : Bool) : Bool :=
  match c with
  | .and => sofar && next
  | .or => sofar || next
  | .xor => sofar ^^ next

/-- Where the verdict so far decides, the next statement changes nothing. -/
theorem combine_of_decides {c : Connective} {sofar : Bool} (h : c.decides sofar = true)
    (next : Bool) : c.combine sofar next = sofar := by
  cases c <;> cases sofar <;> simp_all [decides, combine]

end Connective

/-- What a statement asks. Reference: `StatementTarget`. -/
inductive Question where
  /-- The answer of a verb. -/
  | call (verb : Verb) (parameters : List Token)
  /-- Another condition, with its own supplied values if it is given any. -/
  | condition (id : ConditionId) (overrides : Option (List Token))
  deriving Repr, DecidableEq, Inhabited

/-- One line of a condition. Reference: `ConditionalStatement`. -/
structure Statement where
  inverted : Bool
  question : Question
  /-- How the statement joins the next one. -/
  connective : Option Connective
  deriving Repr, DecidableEq, Inhabited

/-- A named chain of statements. Reference: `Condition`. -/
structure Condition where
  name : String
  statements : List Statement
  /-- Whether the verdict of the chain is negated. -/
  inverted : Bool
  deriving Repr, DecidableEq, Inhabited

/-- The condition that a question refers to. -/
def Question.reference? : Question → Option ConditionId
  | .condition id _ => some id
  | .call _ _ => none

/-- The conditions that the statements of a condition refer to. -/
def Condition.references (c : Condition) : List ConditionId :=
  c.statements.filterMap fun s => s.question.reference?

end HouseRules
