import HouseRules.Layout
import HouseRules.Pile

/-!
# Boards

A board is the piles of a layout for a number of seats, one pile for each shared declaration and one
for each seat otherwise, with the cards that have been taken out of play.

The functions that move cards, `transfer`, `transferTop`, `exchange` and `remove`, answer with the
board after the move, or with `none` when the move is refused; a refused move has no board of its
own, so nothing is half done. A pile number that is not on the board refuses every move.

Reference: `GameBoard` (specification 3, E3).
-/

namespace HouseRules

open Chance (Stream)

/-- The piles of a running game. Reference: `GameBoard`. -/
structure Board where
  piles : List Pile
  /-- The cards taken out of play, in the order of their removal. -/
  removed : List Card
  deriving Repr, DecidableEq, Inhabited

namespace Board

/-! ## Building -/

/-- The empty piles of one declaration. -/
def pilesFor (count : Nat) (declaration : PileDeclaration) (slot : Slot) : List Pile :=
  let build (owner : Option Seat) : Pile :=
    { name := declaration.name, slot, owner, policy := declaration.policy, cards := [] }
  match declaration.policy.owner with
  | .common => [build none]
  | .player => (Seat.all count).map fun seat => build (some seat)

/-- The empty board of a layout for a number of seats. Reference: `GameBoard.new`. -/
def ofLayout (l : Layout) (count : Nat) : Board where
  piles := l.piles.zipIdx.flatMap fun (declaration, i) => pilesFor count declaration (.ofNat i)
  removed := []

/-! ## Finding piles -/

/-- The number of piles. -/
def size (b : Board) : Nat := b.piles.length

/-- The pile of a number. -/
def pile? (b : Board) (id : PileId) : Option Pile := b.piles[id.index]?

/-- Every pile with its number. -/
def entries (b : Board) : List (PileId × Pile) :=
  b.piles.zipIdx.map fun (pile, i) => (.ofNat i, pile)

/-- The numbers of the piles that satisfy a test, in order. -/
def idsWhere (b : Board) (test : Pile → Bool) : List PileId :=
  b.entries.filterMap fun (id, pile) => if test pile then some id else none

/-- The pile of a declaration that belongs to a seat, or else the one that all share. Reference:
`GameBoard.find`. -/
def find? (b : Board) (slot : Slot) (seat : Seat) : Option PileId :=
  let owned := b.idsWhere fun p => p.slot == slot && p.owner == some seat
  let shared := b.idsWhere fun p => p.slot == slot && p.owner == none
  owned.getLast?.or shared.getLast?

/-- The piles of a declaration, in the order of seats. Reference: `GameBoard.instances`. -/
def instances (b : Board) (slot : Slot) : List PileId := b.idsWhere (·.slot == slot)

/-- The piles of a seat, in the order of declaration. Reference: `GameBoard.piles_of`. -/
def pilesOf (b : Board) (seat : Seat) : List PileId := b.idsWhere (·.owner == some seat)

/-! ## All cards -/

/-- Every card on the board or out of play. -/
def cards (b : Board) : List Card := b.piles.flatMap (·.cards) ++ b.removed

/-- The number of cards on the board and out of play. -/
def total (b : Board) : Nat := b.piles.foldr (fun p n => p.size + n) b.removed.length

@[simp] theorem length_cards (b : Board) : b.cards.length = b.total := by
  obtain ⟨piles, removed⟩ := b
  simp only [cards, total]
  induction piles with
  | nil => rfl
  | cons p piles ih =>
    rw [List.flatMap_cons, List.append_assoc, List.length_append, ih, List.foldr_cons, Pile.size]

/-! ## Changing piles -/

/-- Applies a change to one pile. -/
def modify (b : Board) (id : PileId) (change : Pile → Pile) : Board :=
  { b with piles := b.piles.modify id.index change }

@[simp] theorem size_modify (b : Board) (id : PileId) (change : Pile → Pile) :
    (b.modify id change).size = b.size := by
  simp [modify, size]

@[simp] theorem removed_modify (b : Board) (id : PileId) (change : Pile → Pile) :
    (b.modify id change).removed = b.removed := rfl

/-- A change shows in its own pile and in no other. -/
theorem pile?_modify (b : Board) (id other : PileId) (change : Pile → Pile) :
    (b.modify id change).pile? other =
      if id.index = other.index then (b.pile? other).map change else b.pile? other := by
  simp only [pile?, modify, List.getElem?_modify]
  split <;> simp

/-- Empties every pile and forgets the cards out of play. -/
def clear (b : Board) : Board := ⟨b.piles.map Pile.clear, []⟩

/-! ## Moving cards -/

/-- Moves cards from one pile to another, one after the other; refused unless there are any and all
may be taken together. Reference: `GameBoard.transfer`. -/
def transfer (b : Board) (source target : PileId) (ids : List CardId) : Option Board := do
  let pile ← b.pile? source
  if ids.isEmpty || !pile.canTake ids then none
  else some ((b.modify source (·.eraseAll ids)).modify target (·.addAll (ids.filterMap pile.card?)))

/-- Moves the topmost card. Reference: `GameBoard.transfer_top`. -/
def transferTop (b : Board) (source target : PileId) : Option Board := do
  let pile ← b.pile? source
  let card ← pile.top?
  b.transfer source target [card.id]

/-- Moves all cards of a pile, from the bottom up, whatever its removal policy. Reference:
`GameBoard.transfer_all`. -/
def transferAll (b : Board) (source target : PileId) : Board :=
  if source = target then b
  else
    match b.pile? source with
    | some pile => (b.modify source Pile.clear).modify target (·.addAll pile.cards)
    | none => b

/-- Puts two cards in each other's places; refused unless both may be taken, and within one pile
unless they are different. Reference: `GameBoard.exchange`. -/
def exchange (b : Board) (a b' : PileId) (cardA cardB : CardId) : Option Board := do
  let pileA ← b.pile? a
  let pileB ← b.pile? b'
  if !pileA.canTake [cardA] || !pileB.canTake [cardB] then none
  else if a = b' then
    let swapped ← pileA.swap? cardA cardB
    some (b.modify a fun _ => swapped)
  else
    let first ← pileA.card? cardA
    let second ← pileB.card? cardB
    some ((b.modify a (·.replace cardA second)).modify b' (·.replace cardB first))

/-- Takes cards out of play; refused as `transfer` is. Reference: `GameBoard.remove`. -/
def remove (b : Board) (source : PileId) (ids : List CardId) : Option Board := do
  let pile ← b.pile? source
  if ids.isEmpty || !pile.canTake ids then none
  else
    let b := b.modify source (·.eraseAll ids)
    some { b with removed := b.removed ++ ids.filterMap pile.card? }

/-- Takes all cards of a pile out of play. Reference: `GameBoard.remove_all`. -/
def removeAll (b : Board) (source : PileId) : Board :=
  match b.pile? source with
  | some pile =>
    let b := b.modify source Pile.clear
    { b with removed := b.removed ++ pile.cards }
  | none => b

/-- Shuffles a pile. -/
def shuffle (b : Board) (id : PileId) (stream : Stream) : Board × Stream :=
  match b.pile? id with
  | some pile =>
    let (shuffled, stream) := pile.shuffle stream
    (b.modify id fun _ => shuffled, stream)
  | none => (b, stream)

end Board

end HouseRules
