import HouseRules.Table
import HouseRules.Value

/-!
# Values to choose from

What a player may fill an open parameter with: for a card, the cards that may be taken from the pile
it comes from, or from any of the player's own piles where that pile is not known; every pile, every
player still playing, every phase. Texts and numbers are free, so nothing is listed for them.

Reference: `targeting.enumerate` (specification 4.5, E3).
-/

namespace HouseRules

/-- The choices for one open parameter of an action. Reference: `OptionList`. -/
structure OptionList where
  /-- The place of the parameter. -/
  index : Nat
  kind : Kind
  values : List Value
  deriving Repr, DecidableEq

namespace Table

/-- The cards that may be taken from some piles, one at a time. -/
def removableFrom (t : Table) (ids : List PileId) : List Card :=
  ids.flatMap fun id => ((t.board.pile? id).map (·.removable)).getD []

/-- The choices of a kind; `source` is the pile that a card has to come from. Reference:
`targeting.enumerate`. -/
def choices (t : Table) (phases : Nat) (source : Option PileId) : Kind → List Value
  | .card | .cards =>
    (t.removableFrom (match source with
      | some id => [id]
      | none => t.board.pilesOf t.current)).map .card
  | .pile | .piles => t.board.entries.map fun (id, _) => .pile id
  | .player => t.activeSeats.map .player
  | .phase => (List.range phases).map fun i => .phase ⟨i⟩
  | .text | .integer => []

end Table

end HouseRules
