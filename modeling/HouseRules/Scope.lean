import HouseRules.Action
import HouseRules.Graph
import HouseRules.Layout
import HouseRules.Text.Quoted

/-!
# Names in scope

Before any component is compiled, the names of all are collected, so that a component may refer to
one declared later. A name's number is its place among the names of its sort. References that do not
resolve name the component they stand in.

Reference: `Scope` of the component compiler (specification 4.2).
-/

namespace HouseRules

/-- The names that components of a rules document may refer to. Reference: `Scope`. -/
structure Scope where
  /-- The document, as messages name it. -/
  document : String
  layout : Layout
  aliases : List Alias
  actions : List String
  controlled : List String
  conditions : List String
  phases : List String
  deriving Repr, DecidableEq, Inhabited

namespace Scope

/-- The place of a name in a list. -/
def place? (names : List String) (name : String) : Option Nat := names.findIdx? (· == name)

/-- The error for a name that is not in scope. -/
def unknown (kind name component : String) : CompileError :=
  .unresolvedReference kind name component

/-- The error for a token that is not what it should be. -/
def unexpected (s : Scope) (expected token : String) : CompileError :=
  .invalidReference s.document expected token

/-- The action or controlled action of a name. -/
def performable (s : Scope) (name component : String) : Compiled Performable :=
  let action := (place? s.actions name).map fun i => Performable.action ⟨i⟩
  let controlled := (place? s.controlled name).map fun i => Performable.controlled ⟨i⟩
  orFail (unknown "action" name component) (action.or controlled)

/-- The condition of a name, if there is one. -/
def condition? (s : Scope) (name : String) : Option ConditionId :=
  (place? s.conditions name).map ConditionId.mk

/-- The condition of a name. -/
def condition (s : Scope) (name component : String) : Compiled ConditionId :=
  orFail (unknown "condition" name component) (s.condition? name)

/-- The phase of a name. -/
def phase (s : Scope) (name component : String) : Compiled PhaseId :=
  orFail (unknown "phase" name component) ((place? s.phases name).map PhaseId.mk)

/-- The pile declaration of a name. -/
def slot (s : Scope) (name component : String) : Compiled Slot :=
  orFail (unknown "cardpile" name component) (s.layout.slot? name)

/-- What a token stands for: the replacement of an alias, or itself. -/
def replacement (s : Scope) (token : String) : List String :=
  match s.aliases.find? (·.name == token) with
  | some a => a.replacement
  | none => [token]

/-- The tokens of a line, aliases replaced once. Reference: `tokens.expand_aliases`. -/
def tokens (s : Scope) (line : String) : List String :=
  (Text.tokens line).flatMap s.replacement

end Scope

end HouseRules
