import HouseRules.Board
import HouseRules.Graph.Id

/-!
# The table: a game in play

Everything that play may change: the board, the players with their phase and status, whose turn it
is, the number of the turn, the direction of play, and the stream that shuffles draw from.

Players who have won or lost keep their seat but take no more turns. `Table.neighbour` looks for the
next seat that does; `Table.advanceTurn` passes the turn there and counts a turn each time play
steps onto the first seat, whoever sits in it. The number of the turn is unbounded here and has 32
bits in the engine.

Reference: `PlayState`, `CardPlayer` (specification 3, 4.5).
-/

namespace HouseRules

open Chance (Stream)

/-- How a player stands. Reference: `PlayerStatus`. -/
inductive Status where
  | playing
  | won
  | lost
  deriving Repr, DecidableEq, Inhabited

/-- A participant. Reference: `CardPlayer`. -/
structure Player where
  name : String
  /-- The piles the player owns, in the order of declaration. -/
  piles : List PileId
  /-- The phase the player is in; `none` until the game starts. -/
  phase : Option PhaseId
  status : Status
  deriving Repr, DecidableEq, Inhabited

namespace Player

/-- A participant before the game. -/
def seated (name : String) (piles : List PileId) : Player := ⟨name, piles, none, .playing⟩

/-- Whether the player has neither won nor lost. -/
def isActive (p : Player) : Bool := p.status == .playing

/-- The participant as before the game. -/
def reset (p : Player) : Player := seated p.name p.piles

end Player

/-- A game in play. Reference: `PlayState`. -/
structure Table where
  board : Board
  /-- The players by seat. -/
  players : List Player
  /-- Whose turn it is. -/
  current : Seat
  turn : Nat
  direction : Direction
  stream : Stream
  deriving Repr

namespace Table

/-- A table before the first turn. -/
def fresh (board : Board) (players : List Player) (direction : Direction) (stream : Stream) :
    Table :=
  { board, players, current := .first, turn := 1, direction, stream }

/-! ## Players -/

/-- The number of seats. -/
def count (t : Table) : Nat := t.players.length

/-- The player in a seat. -/
def player? (t : Table) (seat : Seat) : Option Player := t.players[seat.index]?

/-- The phase of the player in a seat. -/
def phaseOf? (t : Table) (seat : Seat) : Option PhaseId := (t.player? seat).bind (·.phase)

/-- Whether the player in a seat still takes turns. -/
def isActive (t : Table) (seat : Seat) : Bool := (t.player? seat).any (·.isActive)

/-- The seats whose players satisfy a test. -/
def seatsWhere (t : Table) (test : Player → Bool) : List Seat :=
  t.players.zipIdx.filterMap fun (player, i) => if test player then some ⟨i⟩ else none

/-- The seats whose players still take turns. -/
def activeSeats (t : Table) : List Seat := t.seatsWhere (·.isActive)

/-- Applies a change to the player in a seat. -/
def modifyPlayer (t : Table) (seat : Seat) (change : Player → Player) : Table :=
  { t with players := t.players.modify seat.index change }

@[simp] theorem count_modifyPlayer (t : Table) (seat : Seat) (change : Player → Player) :
    (t.modifyPlayer seat change).count = t.count := by
  simp [modifyPlayer, count]

/-- Applies a change to every player. -/
def modifyPlayers (t : Table) (change : Player → Player) : Table :=
  { t with players := t.players.map change }

/-! ## Turns -/

/-- The first seat reached in at most `n` steps from `seat` that is `home` or active; `home` if
there is none. -/
def seek (t : Table) (d : Direction) (home : Seat) : (n : Nat) → Seat → Seat
  | 0, _ => home
  | n + 1, seat =>
    let seat := d.step seat t.count
    if seat = home || t.isActive seat then seat else t.seek d home n seat

/-- The first active seat after a seat, or the seat itself if there is no other. Reference:
`PlayState.neighbour`. -/
def neighbour (t : Table) (seat : Seat) (d : Direction) : Seat := t.seek d seat t.count seat

/-- The active seat after the current one. -/
def nextSeat (t : Table) : Seat := t.neighbour t.current t.direction

/-- The active seat before the current one. -/
def previousSeat (t : Table) : Seat := t.neighbour t.current t.direction.reversed

/-- Steps on from a seat to an active one, at most `n` times, counting turns on the way. -/
def pass (t : Table) : (n : Nat) → Seat → (turn : Nat) → Seat × Nat
  | 0, seat, turn => (seat, turn)
  | n + 1, seat, turn =>
    let seat := t.direction.step seat t.count
    let turn := if seat = Seat.first then turn + 1 else turn
    if t.isActive seat then (seat, turn) else t.pass n seat turn

/-- Passes the turn to the next active player, if anyone is active. Reference:
`PlayState.advance_turn`. -/
def advanceTurn (t : Table) : Table :=
  if t.activeSeats.isEmpty then t
  else
    let (seat, turn) := t.pass t.count t.current t.turn
    { t with current := seat, turn }

/-- Everyone as before the game. -/
def resetPlayers (t : Table) : Table := t.modifyPlayers Player.reset

end Table

end HouseRules
