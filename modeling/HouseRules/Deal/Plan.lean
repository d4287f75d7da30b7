import HouseRules.Pile.Policy
import HouseRules.Seat

/-!
# Plans for dealing

A plan says how often to shuffle, in which direction to go round, and which piles get how many
cards: first piles that every player has, then piles that all share. Collated dealing gives one card
to each player in turn, otherwise a player gets all cards of a pile at once.

Reference: `DealConfig` (specification 4.4, E2.3).
-/

namespace HouseRules

/-- How many cards a pile gets. Reference: `DealCount`. -/
inductive DealCount where
  | exactly (n : Nat)
  /-- Everything left. -/
  | all
  deriving Repr, DecidableEq, Inhabited

/-- Whether a pile that has got some cards has got its share. -/
def DealCount.isSatisfied (c : DealCount) (dealt : Nat) : Bool :=
  match c with
  | .exactly n => n ≤ dealt
  | .all => false

/-- A pile and how many cards it gets. Reference: `DealPair`. -/
structure DealPair where
  slot : Slot
  count : DealCount
  deriving Repr, DecidableEq, Inhabited

/-- How the cards are dealt. Reference: `DealConfig`. -/
structure DealPlan where
  /-- How often the deck is shuffled before. -/
  passes : Nat := 1
  direction : Direction := .clockwise
  /-- Whether players get their cards one at a time in turn. -/
  collate : Bool := false
  playerPiles : List DealPair := []
  commonPiles : List DealPair := []
  deriving Repr, DecidableEq, Inhabited

/-- All pairs of a plan, in dealing order. -/
def DealPlan.pairs (p : DealPlan) : List DealPair := p.playerPiles ++ p.commonPiles

end HouseRules
