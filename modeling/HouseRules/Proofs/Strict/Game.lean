import HouseRules.Proofs.Session.Conservation
import HouseRules.Proofs.Strict.Graph
import HouseRules.Proofs.Strict.Setup

/-!
# Compiling read strictly

A game is compiled from four documents, the parts one after the other, and the first error met is
the answer. Each part is read strictly without a condition on its document, and so is the game: for
any documents whatever, compiling comes to a game or to an error, and never takes a word, a field, a
line, a block or a name by a place that is not there (`Game.ofDocumentsStrict_eq`). What it comes to
besides is consistent (`Game.compiling_in_range`).

Reference: `GameRules.from_documents` (specification 4.2), with the indexing that it does.
-/

namespace HouseRules.Game

/-! ## The readers of a rules document -/

/-- `Game.readPlayers`, read strictly. -/
def readPlayersStrict (rules : Document) : Strict CompileError (Nat × Nat) := do
  let text ← rules.requireParamsStrict "players"
  let refused := rules.refused "players" text
  let counts : List Nat ←
    ((Text.words text).mapM fun word => orFail refused (Text.count? word) : Compiled _)
  let (least, most) ←
    match counts with
    | [n] => pure (n, n)
    | [least, most] => pure (least, most)
    | _ => throw refused
  if least == 0 || least > most || most > maxPlayers then throw refused
  return (least, most)

/-- `Game.readRanking`, read strictly. -/
def readRankingStrict (rules : Document) (deck : Deck) : Strict CompileError Ranking := do
  if rules.has "ranking" then
    let block ← rules.betweenStrict "ranking" "end-ranking"
    Ranking.compileStrict block deck
  else return .flat

/-- `Game.readDirection`, read strictly. -/
def readDirectionStrict (rules : Document) : Strict CompileError Direction := do
  match ← rules.paramsStrict "direction-of-play" with
  | some word => orFail (rules.refused "direction-of-play" word) (Direction.ofWord? word)
  | none => return .clockwise

/-- `Game.readDeal`, read strictly. -/
def readDealStrict (rules : Document) (layout : Layout) : Strict CompileError DealPlan := do
  if rules.has "deal" then
    let block ← rules.betweenStrict "deal" "deal-end"
    DealPlan.compileStrict block layout
  else return {}

/-- `Game.readStartPhase`, read strictly. -/
def readStartPhaseStrict (rules : Document) (graph : Graph) : Strict CompileError PhaseId := do
  match ← rules.paramsStrict "start-phase" with
  | some name =>
    orFail (CompileError.unresolvedReference "phase" name "start-phase") (graph.phaseNamed? name)
  | none => if graph.phases.isEmpty then throw (rules.missing "phase") else return ⟨0⟩

/-- `Game.readTitle`, read strictly. -/
def readTitleStrict (rules : Document) : Option String := do
  let name ← rules.paramsStrict "name"
  return (name.filter (· != "")).getD rules.name

/-- `Game.ofDocuments`, read strictly. -/
def ofDocumentsStrict (rules deck board : Document) (brief : Option Document) :
    Strict CompileError Game := do
  let deck ← Deck.compileStrict deck
  let layout ← Layout.compileStrict board
  let (leastPlayers, mostPlayers) ← readPlayersStrict rules
  let ranking ← readRankingStrict rules deck
  let direction ← readDirectionStrict rules
  let deal ← readDealStrict rules layout
  let graph ← Graph.compileStrict rules layout
  let startPhase ← readStartPhaseStrict rules graph
  let title ← readTitleStrict rules
  return {
    name := rules.name
    title
    leastPlayers, mostPlayers, deck, layout, ranking, direction, deal, startPhase, graph
    brief := brief.map fun d => "\n".intercalate d.lines }

variable {rules : Document}

/-- The numbers of players are read without taking a word that is not there. -/
theorem readPlayersStrict_eq : readPlayersStrict rules = some (readPlayers rules) := by
  refine Strict.bind_eq (Document.requireParamsStrict_eq _) fun text _ => ?_
  refine Strict.read_bind fun counts _ => ?_
  match counts with
  | [] => rfl
  | [_] => exact Strict.guard_eq fun _ => rfl
  | [_, _] => exact Strict.guard_eq fun _ => rfl
  | _ :: _ :: _ :: _ => rfl

/-- The ranking is read without taking a line that is not there. -/
theorem readRankingStrict_eq (deck : Deck) :
    readRankingStrict rules deck = some (readRanking rules deck) := by
  refine Strict.ite_eq (fun _ => ?_) fun _ => rfl
  exact Strict.bind_eq (Document.betweenStrict_eq _ _) fun block _ => Ranking.compileStrict_eq ..

/-- The direction is read without taking a line that is not there. -/
theorem readDirectionStrict_eq : readDirectionStrict rules = some (readDirection rules) := by
  refine (Strict.take_bind (Document.paramsStrict_eq _) _).trans ?_
  unfold readDirection
  cases rules.params? "direction-of-play" with
  | some word => exact Strict.liftM_except _
  | none => rfl

/-- The deal is read without taking a line that is not there. -/
theorem readDealStrict_eq (layout : Layout) :
    readDealStrict rules layout = some (readDeal rules layout) := by
  refine Strict.ite_eq (fun _ => ?_) fun _ => rfl
  exact Strict.bind_eq (Document.betweenStrict_eq _ _) fun block _ => DealPlan.compileStrict_eq

/-- The first phase is read without taking a line that is not there. -/
theorem readStartPhaseStrict_eq (graph : Graph) :
    readStartPhaseStrict rules graph = some (readStartPhase rules graph) := by
  refine (Strict.take_bind (Document.paramsStrict_eq _) _).trans ?_
  unfold readStartPhase
  cases rules.params? "start-phase" with
  | some name => exact Strict.liftM_except _
  | none => exact Strict.ite_eq (fun _ => rfl) fun _ => rfl

/-- The title is read without taking a line that is not there. -/
theorem readTitleStrict_eq : readTitleStrict rules = some (readTitle rules) := by
  rw [readTitleStrict, Document.paramsStrict_eq]
  rfl

/-- Compiling a game takes nothing that is not there. -/
theorem ofDocumentsStrict_eq (rules deck board : Document) (brief : Option Document) :
    ofDocumentsStrict rules deck board brief = some (ofDocuments rules deck board brief) := by
  refine Strict.bind_eq Deck.compileStrict_eq fun deck _ => ?_
  refine Strict.bind_eq Layout.compileStrict_eq fun layout _ => ?_
  refine Strict.bind_eq readPlayersStrict_eq fun players _ => ?_
  refine Strict.bind_eq (readRankingStrict_eq deck) fun ranking _ => ?_
  refine Strict.bind_eq readDirectionStrict_eq fun direction _ => ?_
  refine Strict.bind_eq (readDealStrict_eq layout) fun deal _ => ?_
  refine Strict.bind_eq Graph.compileStrict_eq fun graph _ => ?_
  refine Strict.bind_eq (readStartPhaseStrict_eq graph) fun startPhase _ => ?_
  exact (Strict.take_bind readTitleStrict_eq _).trans rfl

/-- Whatever the lines of the documents, compiling comes to a game or to an error without reaching
for anything that is not there, and a game that it comes to is consistent: its players can be
counted, it begins in one of its phases, each pile that gets cards is declared for the owner under
which it is listed, and at most one of them gets everything left. -/
theorem compiling_in_range (rules deck board : Document) (brief : Option Document) :
    ofDocumentsStrict rules deck board brief = some (ofDocuments rules deck board brief) ∧
      ∀ g, ofDocuments rules deck board brief = .ok g → g.Consistent :=
  ⟨ofDocumentsStrict_eq rules deck board brief, fun _ => consistent_of_ofDocuments⟩

/-- The game of drawing is compiled, and consistent. -/
theorem compiling_drawing_in_range :
    ∃ g : Game, ofDocumentsStrict Graph.drawingRules Session.drawingDeck Graph.drawingBoard none =
        some (.ok g) ∧ g.Consistent := by
  have hok : Session.drawing.isOk = true := by decide +kernel
  obtain ⟨⟨g, s⟩, h⟩ := Succeeds.of_isOk hok
  simp only [Session.drawing, bind_ok, pure_ok] at h
  obtain ⟨_, hgame, _, _, heq⟩ := h
  cases heq
  obtain ⟨hstrict, hconsistent⟩ :=
    compiling_in_range Graph.drawingRules Session.drawingDeck Graph.drawingBoard none
  exact ⟨g, hgame ▸ hstrict, hconsistent g hgame⟩

end HouseRules.Game
