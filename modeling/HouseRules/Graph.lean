import HouseRules.Condition
import HouseRules.Error
import HouseRules.Phase

/-!
# The graph of components

All components of a game, each sort in the order of declaration, referring to one another by number.
A graph that has been compiled is closed: every number in it is that of a component
(`Graph.compile`).

The relations `Graph.Refers` (between conditions) and `Graph.Runs` (between controlled actions) say
which component leads directly to which.

Reference: `ComponentGraph`, whose registries are lists here (specification 9).
-/

namespace HouseRules

/-- A word that stands for other words in rule files. Reference: `Alias`. -/
structure Alias where
  name : String
  replacement : List String
  deriving Repr, DecidableEq, Inhabited

/-- The components of a game. Reference: `ComponentGraph`. -/
structure Graph where
  aliases : List Alias
  actions : List Action
  controlled : List ControlledAction
  conditions : List Condition
  phases : List Phase
  deriving Repr, DecidableEq, Inhabited

namespace Graph

/-! ## Components by number -/

/-- The action of a number. -/
def action (g : Graph) (id : ActionId) : Except RuntimeError Action :=
  orFail (.unknownComponent "action" id.describe) g.actions[id.index]?

/-- The controlled action of a number. -/
def controlledAction (g : Graph) (id : ControlledId) : Except RuntimeError ControlledAction :=
  orFail (.unknownComponent "controlled-action" id.describe) g.controlled[id.index]?

/-- The condition of a number. -/
def condition (g : Graph) (id : ConditionId) : Except RuntimeError Condition :=
  orFail (.unknownComponent "condition" id.describe) g.conditions[id.index]?

/-- The phase of a number. -/
def phase (g : Graph) (id : PhaseId) : Except RuntimeError Phase :=
  orFail (.unknownComponent "phase" id.describe) g.phases[id.index]?

/-- The name of what can be run. Reference: `ComponentGraph.performable_name`. -/
def nameOf (g : Graph) : Performable → Except RuntimeError String
  | .action id => return (← g.action id).name
  | .controlled id => return (← g.controlledAction id).name

/-! ## Components by name -/

/-- The number of the action of a name. -/
def actionNamed? (g : Graph) (name : String) : Option ActionId :=
  (g.actions.findIdx? (·.name == name)).map ActionId.mk

/-- The number of the controlled action of a name. -/
def controlledNamed? (g : Graph) (name : String) : Option ControlledId :=
  (g.controlled.findIdx? (·.name == name)).map ControlledId.mk

/-- The number of the condition of a name. -/
def conditionNamed? (g : Graph) (name : String) : Option ConditionId :=
  (g.conditions.findIdx? (·.name == name)).map ConditionId.mk

/-- The number of the phase of a name. -/
def phaseNamed? (g : Graph) (name : String) : Option PhaseId :=
  (g.phases.findIdx? (·.name == name)).map PhaseId.mk

/-- What a name stands for among actions and, after these, controlled actions. Reference:
`ComponentGraph.performable`. -/
def performable? (g : Graph) (name : String) : Option Performable :=
  ((g.actionNamed? name).map .action).or ((g.controlledNamed? name).map .controlled)

/-! ## Direct references -/

/-- The first condition has a statement that asks the second. -/
def Refers (g : Graph) (a b : ConditionId) : Prop :=
  ∃ c, g.conditions[a.index]? = some c ∧ b ∈ c.references

/-- The first controlled action has the second for a branch. -/
def Runs (g : Graph) (a b : ControlledId) : Prop :=
  ∃ c, g.controlled[a.index]? = some c ∧ .controlled b ∈ c.branches

end Graph

end HouseRules
