import HouseRules.Deal.Dealer

/-!
# The schedule of a deal

What a plan asks for, as nested loops: for each pair of players' piles one card to each seat, round
after round, or else the whole share to one seat and then to the next; after these each shared pile
gets its share. The schedule lists, card by card, where the cards go.

A share may be everything that is left, so the schedule is written for a number of cards and ends
with them: `DealPlan.schedule` never asks for more.

Reference: none; what specification 4.4 says of the states of `CardDealer`, written as loops.
-/

namespace HouseRules

/-- Where a card of a deal goes. -/
structure DealTarget where
  slot : Slot
  /-- Whose pile gets the card; `none` for a pile that all share. -/
  receiver : Option Seat
  deriving Repr, DecidableEq, Inhabited

/-- How many cards a share is, when there are so many in all. -/
def DealCount.upTo (cards : Nat) : DealCount → Nat
  | .exactly n => n
  | .all => cards

namespace DealPlan

/-- Where the cards of one pair of players' piles go. -/
def playerTargets (collate : Bool) (seats : List Seat) (cards : Nat) (pair : DealPair) :
    List DealTarget :=
  let share := pair.count.upTo cards
  if collate then (List.replicate share (seats.map fun seat => ⟨pair.slot, some seat⟩)).flatten
  else seats.flatMap fun seat => List.replicate share ⟨pair.slot, some seat⟩

/-- Where the cards of one pair of shared piles go. -/
def commonTargets (cards : Nat) (pair : DealPair) : List DealTarget :=
  List.replicate (pair.count.upTo cards) ⟨pair.slot, none⟩

/-- Where the cards of a deal go, the first one first, for seats in dealing order and a deck of so
many cards. -/
def schedule (plan : DealPlan) (seats : List Seat) (cards : Nat) : List DealTarget :=
  (plan.playerPiles.flatMap (playerTargets plan.collate seats cards) ++
    plan.commonPiles.flatMap (commonTargets cards)).take cards

/-- A schedule asks for no more cards than there are. -/
theorem length_schedule_le (plan : DealPlan) (seats : List Seat) (cards : Nat) :
    (plan.schedule seats cards).length ≤ cards := by
  rw [schedule, List.length_take]
  exact Nat.min_le_left ..

end DealPlan

end HouseRules
