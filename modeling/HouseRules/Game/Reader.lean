import HouseRules.Deal.Reader
import HouseRules.Deck.Reader
import HouseRules.Game
import HouseRules.Graph.Reader
import HouseRules.Layout.Reader
import HouseRules.Library

/-!
# Compiling games

```text
name crazy eights
players 2 5
deck standard
board table
direction-of-play clockwise
start-phase turn
```

A rules document names its deck and its board, which are looked up in the library; a brief of the
game's own name is added if there is one. The parts are compiled one after the other, and the first
error met is the answer.

Reference: `GameRules.compile`, `GameRules.from_documents` (specification E2.3).
-/

namespace HouseRules.Game

/-- The most players that a game may admit. -/
def maxPlayers : Nat := 255

/-- Reads the number of players: the least and the most, or one number for both. -/
def readPlayers (rules : Document) : Compiled (Nat × Nat) := do
  let text ← rules.requireParams "players"
  let refused := rules.refused "players" text
  let counts ← (Text.words text).mapM fun word => orFail refused (Text.count? word)
  let (least, most) ←
    match counts with
    | [n] => pure (n, n)
    | [least, most] => pure (least, most)
    | _ => throw refused
  if least == 0 || least > most || most > maxPlayers then throw refused
  return (least, most)

/-- Reads the ranking; without one all cards are equal. -/
def readRanking (rules : Document) (deck : Deck) : Compiled Ranking := do
  if rules.has "ranking" then
    let block ← rules.between "ranking" "end-ranking"
    Ranking.compile block deck
  else return .flat

/-- Reads the direction of play, which is clockwise unless said otherwise. -/
def readDirection (rules : Document) : Compiled Direction :=
  match rules.params? "direction-of-play" with
  | some word => orFail (rules.refused "direction-of-play" word) (Direction.ofWord? word)
  | none => .ok .clockwise

/-- Reads the plan for dealing; without one nothing is dealt. -/
def readDeal (rules : Document) (layout : Layout) : Compiled DealPlan := do
  if rules.has "deal" then
    let block ← rules.between "deal" "deal-end"
    DealPlan.compile block layout
  else return {}

/-- Reads the phase that players start in, the first one unless said otherwise. -/
def readStartPhase (rules : Document) (graph : Graph) : Compiled PhaseId :=
  match rules.params? "start-phase" with
  | some name =>
    orFail (.unresolvedReference "phase" name "start-phase") (graph.phaseNamed? name)
  | none => if graph.phases.isEmpty then .error (rules.missing "phase") else .ok ⟨0⟩

/-- The name for display: what the `name` line says, or the name of the document. -/
def readTitle (rules : Document) : String :=
  ((rules.params? "name").filter (· != "")).getD rules.name

/-- Compiles a game from its documents. Reference: `GameRules.from_documents`. -/
def ofDocuments (rules deck board : Document) (brief : Option Document) : Compiled Game := do
  let deck ← Deck.compile deck
  let layout ← Layout.compile board
  let (leastPlayers, mostPlayers) ← readPlayers rules
  let ranking ← readRanking rules deck
  let direction ← readDirection rules
  let deal ← readDeal rules layout
  let graph ← Graph.compile rules layout
  let startPhase ← readStartPhase rules graph
  return {
    name := rules.name
    title := readTitle rules
    leastPlayers, mostPlayers, deck, layout, ranking, direction, deal, startPhase, graph
    brief := brief.map fun d => "\n".intercalate d.lines }

/-- Compiles the game whose rules have a name in the library. Reference: `GameRules.compile`. -/
def compile (library : Library) (name : String) : Compiled Game := do
  let rules ← library.require .rules name "plugin library"
  let deckName ← rules.requireParams "deck"
  let boardName ← rules.requireParams "board"
  let deck ← library.require .deck deckName rules.identity
  let board ← library.require .board boardName rules.identity
  ofDocuments rules deck board (library.get? .brief rules.name)

end HouseRules.Game
