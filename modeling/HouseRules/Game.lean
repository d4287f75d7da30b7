import HouseRules.Deal.Plan
import HouseRules.Deck
import HouseRules.Graph
import HouseRules.Layout
import HouseRules.Ranking

/-!
# Games

A game is everything its documents say, compiled: the deck, the board, the ranking, the deal and the
components, with the number of players it admits. It does not change while it is played, and any
number of sessions may share it.

Reference: `GameRules` (specification 4.2, E1.1).
-/

namespace HouseRules

/-- A compiled game. Reference: `GameRules`. -/
structure Game where
  /-- The name of the rules document. -/
  name : String
  /-- The name for display. -/
  title : String
  leastPlayers : Nat
  mostPlayers : Nat
  deck : Deck
  layout : Layout
  ranking : Ranking
  direction : Direction
  deal : DealPlan
  startPhase : PhaseId
  graph : Graph
  /-- A description in prose. -/
  brief : Option String
  deriving Repr, DecidableEq

/-- Refuses a number of players that the game does not admit. Reference:
`GameRules.check_player_count`. -/
def Game.checkPlayerCount (g : Game) (count : Nat) : Compiled Unit :=
  if count < g.leastPlayers || count > g.mostPlayers then
    .error (.playerCount g.name g.leastPlayers g.mostPlayers count)
  else .ok ()

end HouseRules
