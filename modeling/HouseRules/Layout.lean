import HouseRules.Pile.Policy

/-!
# Board layouts

A layout is what a board document declares: piles by name with their policies, hints for drawing the
board, and the order in which the piles of each owner are presented. A declaration is referred to by
its slot, the number of its place.

Reference: `BoardLayout`, `PileSpec` (specification E2.2).
-/

namespace HouseRules

/-- One declared pile. Reference: `PileSpec`. -/
structure PileDeclaration where
  name : String
  policy : PilePolicy
  deriving Repr, DecidableEq, Inhabited

/-- The declarations of a board. Reference: `BoardLayout`. -/
structure Layout where
  name : String
  piles : List PileDeclaration
  shape : Option String
  playerLayout : Option String
  dealer : Option String
  /-- The shared piles in the order of presentation. -/
  commonPiles : List Slot
  /-- The piles that every player has, in the order of presentation. -/
  playerPiles : List Slot
  deriving Repr, DecidableEq, Inhabited

namespace Layout

/-- The slot of a name. -/
def slot? (l : Layout) (name : String) : Option Slot :=
  (l.piles.findIdx? (·.name == name)).map Slot.ofNat

/-- The declaration of a slot. -/
def declaration? (l : Layout) (slot : Slot) : Option PileDeclaration := l.piles[slot.index]?

/-- The name of a slot's declaration; empty if there is none. -/
def nameOf (l : Layout) (slot : Slot) : String :=
  ((l.declaration? slot).map (·.name)).getD ""

/-- The owner that a slot's declaration gives its piles to. -/
def owner? (l : Layout) (slot : Slot) : Option PileOwner :=
  (l.declaration? slot).map (·.policy.owner)

/-- The slots declared for an owner, in the order of declaration. -/
def slotsOf (l : Layout) (owner : PileOwner) : List Slot :=
  l.piles.zipIdx.filterMap fun (pile, i) =>
    if pile.policy.owner = owner then some (Slot.ofNat i) else none

end Layout

end HouseRules
