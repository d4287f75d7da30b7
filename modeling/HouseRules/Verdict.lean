import HouseRules.Table

/-!
# How a game ends

A game is over once somebody has won, or once at most one player is still playing; where the last
one standing is not alone at the table, they win. With nobody left playing and nobody having won,
the game is drawn.

Reference: `GameResult` (specification E4, E5).
-/

namespace HouseRules

/-- The result of a game. Reference: `GameResult`. -/
inductive Verdict where
  | winner (seat : Seat)
  | draw
  | winners (seats : List Seat)
  deriving Repr, DecidableEq, Inhabited

/-- Whether a seat has won. -/
def Verdict.isWinner : Verdict → Seat → Bool
  | .winner s, seat => s == seat
  | .winners seats, seat => seats.contains seat
  | .draw, _ => false

namespace Table

/-- The result of the game, once it is over. Reference: `GameResult.from_players`. -/
def verdict? (t : Table) : Option Verdict :=
  match t.seatsWhere (·.status == .won) with
  | [seat] => some (.winner seat)
  | [] =>
    match t.activeSeats with
    | [] => some .draw
    | [last] => if t.count > 1 then some (.winner last) else none
    | _ => none
  | seats => some (.winners seats)

/-- Whether the game is over. -/
def isOver (t : Table) : Bool := t.verdict?.isSome

end Table

end HouseRules
