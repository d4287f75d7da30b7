import HouseRules.Session

/-!
# The board as a player sees it

A view shows every pile with its size, and of its cards only those that the viewer may see, from the
top down.

Reference: `BoardView`, `PileView` (specification E5).
-/

namespace HouseRules

/-- A pile as somebody sees it. Reference: `PileView`. -/
structure PileView where
  id : PileId
  name : String
  owner : Option Seat
  size : Nat
  /-- The cards that are seen, from the top down. -/
  visible : List Card
  deriving Repr, DecidableEq

/-- A board as somebody sees it. Reference: `BoardView`. -/
structure BoardView where
  viewer : Seat
  current : Seat
  turn : Nat
  piles : List PileView
  deriving Repr, DecidableEq

/-- A pile as a viewer sees it. -/
def Pile.view (p : Pile) (id : PileId) (viewer : Seat) : PileView where
  id := id
  name := p.name
  owner := p.owner
  size := p.size
  visible := p.visibleCards viewer

/-- The board as a viewer sees it. Reference: `Engine.board_view`. -/
def Session.view (s : Session) (viewer : Seat) : BoardView where
  viewer := viewer
  current := s.table.current
  turn := s.table.turn
  piles := s.table.board.entries.map fun (id, pile) => pile.view id viewer

end HouseRules
