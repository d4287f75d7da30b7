/-!
# Numbers of components

Actions, controlled actions, conditions and phases are numbered in the order of their declaration,
each sort by itself, and refer to one another by these numbers.

The numbers are unbounded here and have 32 bits in the engine, where they wrap. So the two agree as
long as there are at most 2 ^ 32 components of a sort. Slots and pile numbers have 16 bits, which a
game can exceed; these wrap here as well (`Slot.ofNat`, `PileId.ofNat`).

Reference: `ComponentId` and its instances (specification 9).
-/

namespace HouseRules

/-- The number of an action. Reference: `ActionId`. -/
structure ActionId where
  index : Nat
  deriving Repr, DecidableEq, Inhabited

/-- The number of a controlled action. Reference: `ControlledId`. -/
structure ControlledId where
  index : Nat
  deriving Repr, DecidableEq, Inhabited

/-- The number of a condition. Reference: `ConditionId`. -/
structure ConditionId where
  index : Nat
  deriving Repr, DecidableEq, Inhabited

/-- The number of a phase. Reference: `PhaseId`. -/
structure PhaseId where
  index : Nat
  deriving Repr, DecidableEq, Inhabited

/-- How messages name an action by its number. -/
def ActionId.describe (id : ActionId) : String :=
  let n := id.index
  s!"Action({n})"

/-- How messages name a controlled action by its number. -/
def ControlledId.describe (id : ControlledId) : String :=
  let n := id.index
  s!"Controlled({n})"

/-- How messages name a condition by its number. -/
def ConditionId.describe (id : ConditionId) : String :=
  let n := id.index
  s!"Condition({n})"

/-- How messages name a phase by its number. -/
def PhaseId.describe (id : PhaseId) : String :=
  let n := id.index
  s!"Phase({n})"

end HouseRules
