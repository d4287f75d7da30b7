import HouseRules.Card
import HouseRules.Pile.Policy
import HouseRules.Chance.Shuffle

/-!
# Piles of cards

A pile is a list of cards from the bottom to the top, with a name, an owner and a policy. Cards are
found by their number, from the bottom.

`Pile.canTake` says whether some cards may be taken together: all are there, none is named twice,
and the removal policy allows it. The functions that take cards do not ask; who moves cards asks
first (`Board.transfer`). Sorting is stable and leaves the highest card at the bottom; shuffling
acts on the list from bottom to top.

Reference: `CardPile` (specification 3, E2.2).
-/

namespace HouseRules

open Chance (Stream)

/-- An ordered pile of cards on the board. Reference: `CardPile`. -/
structure Pile where
  name : String
  slot : Slot
  /-- Whose pile it is; `none` for one that all share. -/
  owner : Option Seat
  policy : PilePolicy
  /-- The cards from bottom to top. -/
  cards : List Card
  deriving Repr, DecidableEq, Inhabited

namespace Pile

/-- How messages name a pile. -/
def describe (p : Pile) : String :=
  match p.owner with
  | some seat => p.name ++ " (" ++ seat.describe ++ ")"
  | none => p.name

/-- The number of cards. -/
def size (p : Pile) : Nat := p.cards.length

/-- Whether there are no cards. -/
def isEmpty (p : Pile) : Bool := p.cards.isEmpty

/-- The topmost card. -/
def top? (p : Pile) : Option Card := p.cards.getLast?

/-- The lowest card. -/
def bottom? (p : Pile) : Option Card := p.cards.head?

/-! ## Finding cards -/

/-- The place of a card, counted from the bottom. -/
def position? (p : Pile) (id : CardId) : Option Nat := p.cards.findIdx? (·.id == id)

/-- Whether a card is in the pile. -/
def contains (p : Pile) (id : CardId) : Bool := p.cards.any (·.id == id)

/-- The card of a number. -/
def card? (p : Pile) (id : CardId) : Option Card := p.cards.find? (·.id == id)

/-! ## Adding and taking -/

/-- Adds cards one by one where the placement policy puts them. -/
def addAll (p : Pile) (cards : List Card) : Pile :=
  match p.policy.placement with
  | .top => { p with cards := p.cards ++ cards }
  | .bottom => { p with cards := cards.reverse ++ p.cards }

/-- Adds a card where the placement policy puts it. Reference: `CardPile.add`. -/
def add (p : Pile) (card : Card) : Pile := p.addAll [card]

/-- Adding cards one by one adds them all. -/
theorem foldl_add (p : Pile) (cards : List Card) : cards.foldl add p = p.addAll cards := by
  induction cards generalizing p with
  | nil => cases h : p.policy.placement <;> simp [addAll, h]
  | cons c cs ih =>
    rw [List.foldl_cons, ih]
    cases h : p.policy.placement <;> simp [add, addAll, h]

/-- Whether the cards lie where the removal policy allows taking them together. -/
def permitsTaking (p : Pile) (ids : List CardId) : Bool :=
  match p.policy.removal with
  | .any => true
  | .top => ids.all fun id => p.size ≤ (p.position? id).getD 0 + ids.length
  | .none => ids.isEmpty

/-- Whether all of the cards may be taken together now. Reference: `CardPile.can_take`. -/
def canTake (p : Pile) (ids : List CardId) : Bool :=
  ids.all p.contains && decide ids.Nodup && p.permitsTaking ids

/-- The cards that may be taken one at a time. Reference: `CardPile.removable`. -/
def removable (p : Pile) : List Card :=
  match p.policy.removal with
  | .any => p.cards
  | .top => p.top?.toList
  | .none => []

/-- The pile without a card. -/
def erase (p : Pile) (id : CardId) : Pile :=
  { p with cards := p.cards.eraseP (·.id == id) }

/-- The pile without some cards. -/
def eraseAll (p : Pile) (ids : List CardId) : Pile := ids.foldl erase p

/-- Takes a card whatever the policy. -/
def take (p : Pile) (id : CardId) : Option Card × Pile := (p.card? id, p.erase id)

/-- Takes the topmost card whatever the policy. -/
def takeTop (p : Pile) : Option Card × Pile :=
  (p.top?, { p with cards := p.cards.dropLast })

/-- The pile without cards. -/
def clear (p : Pile) : Pile := { p with cards := [] }

/-- Puts another card in the place of one, if that is there. -/
def replace (p : Pile) (id : CardId) (card : Card) : Pile :=
  match p.position? id with
  | some i => { p with cards := p.cards.set i card }
  | none => p

/-- Exchanges two cards of the pile, which have to be different. -/
def swap? (p : Pile) (a b : CardId) : Option Pile := do
  let i ← p.position? a
  let j ← p.position? b
  let cardA ← p.cards[i]?
  let cardB ← p.cards[j]?
  if i == j then none
  else some { p with cards := (p.cards.set i cardB).set j cardA }

/-! ## Order -/

/-- Sorts the pile from the highest card at the bottom, keeping the order of equal cards. Reference:
`CardPile.sort_descending_by`. -/
def sort (p : Pile) (compare : Card → Card → Ordering) : Pile :=
  { p with cards := p.cards.mergeSort fun a b => compare a b != .lt }

/-- Shuffles the pile. Reference: `CardPile.shuffle`. -/
def shuffle (p : Pile) (stream : Stream) : Pile × Stream :=
  let (cards, stream) := Chance.shuffle p.cards stream
  ({ p with cards }, stream)

/-! ## Seeing cards -/

/-- Whether a viewer may see cards of the pile at all. -/
def isOpenTo (p : Pile) (viewer : Seat) : Bool :=
  match p.policy.visibility with
  | .all => true
  | .owner => p.owner == some viewer
  | .others => p.owner != some viewer
  | .none => false

/-- The number of cards a viewer sees. Reference: `CardPile.visible_count`. -/
def visibleCount (p : Pile) (viewer : Seat) : Nat :=
  if p.isOpenTo viewer then
    match p.policy.visible with
    | some limit => min limit p.size
    | none => p.size
  else 0

/-- The cards a viewer sees, from the top down. -/
def visibleCards (p : Pile) (viewer : Seat) : List Card :=
  p.cards.reverse.take (p.visibleCount viewer)

/-- A viewer sees no more cards than there are. -/
theorem visibleCount_le (p : Pile) (viewer : Seat) : p.visibleCount viewer ≤ p.size := by
  unfold visibleCount
  split
  · split
    · exact Nat.min_le_right ..
    · exact Nat.le_refl _
  · exact Nat.zero_le _

/-- A viewer sees as many cards as are counted. -/
@[simp] theorem length_visibleCards (p : Pile) (viewer : Seat) :
    (p.visibleCards viewer).length = p.visibleCount viewer := by
  have := p.visibleCount_le viewer
  simp only [visibleCards, List.length_take, List.length_reverse]
  exact Nat.min_eq_left this

end Pile

end HouseRules
