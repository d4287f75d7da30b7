import HouseRules.Token

/-!
# Actions

An action is a named call of a verb. A controlled action runs one of two branches by a condition, or
one branch always, and may repeat it. Both are `Performable`, which is what phases and branches
refer to.

Reference: `Action`, `ControlledAction` (specification 4.2, E2.3).
-/

namespace HouseRules

/-- A named call of a verb. Reference: `Action` (specification 3). -/
structure Action where
  name : String
  description : Option String
  verb : Verb
  parameters : List Token
  deriving Repr, DecidableEq, Inhabited

/-- The number of parameters left open. Reference: `Action.open_params`. -/
def Action.openCount (a : Action) : Nat := a.parameters.countP (·.isPlaceholder)

/-- What can be run. Reference: `Performable`. -/
inductive Performable where
  | action (id : ActionId)
  | controlled (id : ControlledId)
  deriving Repr, DecidableEq, Inhabited

/-- How often a controlled action runs. Reference: `Repeat`. -/
inductive Repeat where
  | once
  /-- At most so many times, up to the first run without effect. -/
  | times (n : Nat)
  /-- Up to the first run without effect. -/
  | untilFalse
  deriving Repr, DecidableEq, Inhabited

/-- A condition, perhaps negated where it is used. Reference: `ConditionRef`. -/
structure ConditionRef where
  id : ConditionId
  negated : Bool
  deriving Repr, DecidableEq, Inhabited

/-- A choice between branches; without a condition the first one runs. Reference: `ControlledAction`
(specification 3). -/
structure ControlledAction where
  name : String
  description : Option String
  condition : Option ConditionRef
  onTrue : Performable
  onFalse : Option Performable
  repetition : Repeat
  deriving Repr, DecidableEq, Inhabited

/-- What a controlled action may run, the branch for a true condition first. -/
def ControlledAction.branches (c : ControlledAction) : List Performable :=
  c.onTrue :: c.onFalse.toList

end HouseRules
