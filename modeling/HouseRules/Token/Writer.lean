import HouseRules.Token.Reader

/-!
# Writing parameters

A parameter is written in the form that `Token.read` reads, with the names that its numbers have in
scope. The owner of a pile is always written out.

Reference: none; the other direction of `tokens.classify`.
-/

namespace HouseRules

/-- The word for an owner. -/
def OwnerRef.word : OwnerRef → String
  | .current => "current"
  | .next => "next"
  | .previous => "previous"

/-- The word for an owner names it. -/
@[simp] theorem OwnerRef.ofWord?_word (o : OwnerRef) : OwnerRef.ofWord? o.word = some o := by
  cases o <;> rfl

/-- The word for a player. -/
def PlayerRef.word : PlayerRef → String
  | .current => "current"
  | .next => "next"
  | .previous => "previous"
  | .first => "first"

/-- The word for a player names them. -/
@[simp] theorem PlayerRef.ofWord?_word (w : PlayerRef) : PlayerRef.ofWord? w.word = some w := by
  cases w <;> rfl

namespace Scope

/-- The name of a phase; empty if it is not in scope. -/
def phaseName (s : Scope) (id : PhaseId) : String := s.phases[id.index]?.getD ""

/-- The name of a condition; empty if it is not in scope. -/
def conditionName (s : Scope) (id : ConditionId) : String := s.conditions[id.index]?.getD ""

end Scope

namespace Token

/-- Writes a parameter that selects a pile, in a form. -/
def writeSelector (s : Scope) (form : String) (selector : PileSelector) : String :=
  form ++ "." ++ s.layout.nameOf selector.slot ++ "@" ++ selector.owner.word

/-- Writes a parameter. -/
def write (s : Scope) : Token → String
  | .placeholder kind => kind.keyword
  | .player who => "player." ++ who.word
  | .pile selector => writeSelector s "pile" selector
  | .piles slot => "piles." ++ s.layout.nameOf slot
  | .top selector => writeSelector s "top" selector
  | .bottom selector => writeSelector s "bottom" selector
  | .contents selector => writeSelector s "cards" selector
  | .phase id => "phase." ++ s.phaseName id
  | .integer n => s!"{n}"
  | .text content => "\"" ++ content ++ "\""

end Token

end HouseRules
