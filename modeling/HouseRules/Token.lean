import HouseRules.Graph.Id
import HouseRules.Pile.Policy
import HouseRules.Verb

/-!
# Parameters as written in rule files

A compiled parameter says how its value is found: it is left open for whoever calls, or it is a
player, a pile, a card at the end of a pile or the contents of a pile, relative to whose turn it is,
or it is a phase, a number or a text.

Reference: `ParamToken` (specification E2.4).
-/

namespace HouseRules

/-- A player relative to the turn. Reference: `PlayerRef`. -/
inductive PlayerRef where
  | current
  | next
  | previous
  /-- Whoever sits in the first seat. -/
  | first
  deriving Repr, DecidableEq, Inhabited

/-- The owner of a pile relative to the turn. Reference: `OwnerRef`. -/
inductive OwnerRef where
  | current
  | next
  | previous
  deriving Repr, DecidableEq, Inhabited

/-- A declared pile and whose instance of it is meant. Reference: `PileSelector`. -/
structure PileSelector where
  slot : Slot
  owner : OwnerRef
  deriving Repr, DecidableEq, Inhabited

/-- A compiled parameter. Reference: `ParamToken`. -/
inductive Token where
  /-- Left open for the caller. -/
  | placeholder (kind : Kind)
  | player (who : PlayerRef)
  | pile (selector : PileSelector)
  /-- Every pile of a declaration. -/
  | piles (slot : Slot)
  | top (selector : PileSelector)
  | bottom (selector : PileSelector)
  /-- All cards of a pile. -/
  | contents (selector : PileSelector)
  | phase (id : PhaseId)
  | integer (n : Int)
  | text (text : String)
  deriving Repr, DecidableEq, Inhabited

namespace Token

/-- The kind of the value that a parameter stands for. -/
def kind : Token → Kind
  | .placeholder kind => kind
  | .player _ => .player
  | .pile _ => .pile
  | .piles _ => .piles
  | .top _ | .bottom _ => .card
  | .contents _ => .cards
  | .phase _ => .phase
  | .integer _ => .integer
  | .text _ => .text

/-- Whether the parameter is left open. -/
def isPlaceholder : Token → Bool
  | .placeholder _ => true
  | _ => false

/-- The selector of a parameter that is one pile. -/
def selector? : Token → Option PileSelector
  | .pile selector => some selector
  | _ => none

end Token

end HouseRules
