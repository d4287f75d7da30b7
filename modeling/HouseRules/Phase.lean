import HouseRules.Action

/-!
# Phases

A phase says what happens when a player enters it, what the player may do in it, and what happens
after each thing done that leaves the player there.

Reference: `Phase`, `AllowedAction` (specification E2.3).
-/

namespace HouseRules

/-- An action offered in a phase. Reference: `AllowedAction`. -/
structure AllowedAction where
  action : Performable
  /-- When the action is offered; always if there is no condition. -/
  precondition : Option ConditionRef
  /-- What runs after the action, whether or not that took effect. -/
  responses : List Performable
  deriving Repr, DecidableEq, Inhabited

/-- A named stage of a player's turn. Reference: `Phase`. -/
structure Phase where
  name : String
  /-- What runs on entering. -/
  start : List Performable
  allowed : List AllowedAction
  /-- What runs after an action that took effect and left player and phase as they were. -/
  finish : List Performable
  deriving Repr, DecidableEq, Inhabited

end HouseRules
