import HouseRules.Seat

/-!
# Pile policies

What a board declares about a pile: whether every player has one or all share one, who may see its
cards and how many of them, where added cards go, and which cards may be taken. Orientation and
tiling are hints for whoever draws the board.

Piles and declarations are numbered by two bytes, so their numbers wrap past 65535.

Reference: `PilePolicy`, `PileId`, `PileSlot` (specification 3, E2.2).
-/

namespace HouseRules

/-- The number of a pile on a board. Reference: `PileId`. -/
structure PileId where
  index : Nat
  deriving Repr, DecidableEq, Inhabited

/-- The number given to the pile built at a place. -/
def PileId.ofNat (n : Nat) : PileId := ⟨n % 65536⟩

@[simp] theorem PileId.ofNat_index {n : Nat} (h : n < 65536) : (PileId.ofNat n).index = n :=
  Nat.mod_eq_of_lt h

/-- How messages name a pile by its number. -/
def PileId.describe (id : PileId) : String :=
  let n := id.index
  s!"Pile({n})"

/-- The number of a pile declaration. The piles of one declaration share it. Reference:
`PileSlot`. -/
structure Slot where
  index : Nat
  deriving Repr, DecidableEq, Inhabited

/-- The number given to the declaration at a place. -/
def Slot.ofNat (n : Nat) : Slot := ⟨n % 65536⟩

@[simp] theorem Slot.ofNat_index {n : Nat} (h : n < 65536) : (Slot.ofNat n).index = n :=
  Nat.mod_eq_of_lt h

/-- Who a declaration gives a pile to. Reference: `PileOwner`. -/
inductive PileOwner where
  /-- Every player has one. -/
  | player
  /-- All players share one. -/
  | common
  deriving Repr, DecidableEq, Inhabited

/-- Who may see the cards of a pile. Reference: `Visibility`. -/
inductive Visibility where
  | all
  /-- The owner alone. -/
  | owner
  /-- Everyone but the owner. -/
  | others
  | none
  deriving Repr, DecidableEq, Inhabited

/-- Where added cards go. Reference: `Placement`. -/
inductive Placement where
  | top
  | bottom
  deriving Repr, DecidableEq, Inhabited

/-- Which cards may be taken. Reference: `Removal`. -/
inductive Removal where
  | any
  /-- The topmost ones, in any order. -/
  | top
  | none
  deriving Repr, DecidableEq, Inhabited

/-- How a pile is laid on the table. Reference: `Orientation`. -/
inductive Orientation where
  | vertical
  | horizontal
  deriving Repr, DecidableEq, Inhabited

/-- Whether the cards of a pile lie on one another or beside one another. Reference: `Tiling`. -/
inductive Tiling where
  | stacked
  | spread
  deriving Repr, DecidableEq, Inhabited

/-- What a board declares about a pile. Reference: `PilePolicy`. -/
structure PilePolicy where
  owner : PileOwner := .common
  visibility : Visibility := .all
  /-- The number of topmost cards that are shown, of those that may be seen at all. -/
  visible : Option Nat := none
  placement : Placement := .top
  orientation : Orientation := .vertical
  tiling : Tiling := .stacked
  removal : Removal := .any
  deriving Repr, DecidableEq, Inhabited

/-! ## The words for policies -/

/-- The owner a word names. -/
def PileOwner.ofWord? : String → Option PileOwner
  | "player" => some .player
  | "common" => some .common
  | _ => Option.none

/-- The visibility a word names. -/
def Visibility.ofWord? : String → Option Visibility
  | "all" => some .all
  | "owner" => some .owner
  | "others" => some .others
  | "none" => some .none
  | _ => Option.none

/-- The placement a word names. -/
def Placement.ofWord? : String → Option Placement
  | "top" => some .top
  | "bottom" => some .bottom
  | _ => Option.none

/-- The removal a word names. -/
def Removal.ofWord? : String → Option Removal
  | "any" => some .any
  | "top" => some .top
  | "none" => some .none
  | _ => Option.none

/-- The orientation a word names. -/
def Orientation.ofWord? : String → Option Orientation
  | "vertical" => some .vertical
  | "horizontal" => some .horizontal
  | _ => Option.none

/-- The tiling a word names. -/
def Tiling.ofWord? : String → Option Tiling
  | "stacked" => some .stacked
  | "spread" => some .spread
  | _ => Option.none

end HouseRules
