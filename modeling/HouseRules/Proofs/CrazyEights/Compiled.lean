import HouseRules.Game.CrazyEights
import HouseRules.Proofs.Document
import HouseRules.Proofs.Game

/-!
# Crazy Eights, compiled

What the documents of Crazy Eights compile to, written out (`CrazyEights.compiled`), with the proof
that they do (`CrazyEights.game_eq`). Reading the texts goes by the theorem about texts of plain
lines; everything after that is computed.
-/

namespace HouseRules.CrazyEights

/-- The hand of the player whose turn it is. -/
def hand : PileSelector := ⟨⟨0⟩, .current⟩

/-- The draw pile. -/
def draw : PileSelector := ⟨⟨1⟩, .current⟩

/-- The discard pile. -/
def discard : PileSelector := ⟨⟨2⟩, .current⟩

/-- The deck: thirteen faces in each of four suits. -/
def deck : Deck :=
  let faces := ["a", "2", "3", "4", "5", "6", "7", "8", "9", "10", "j", "q", "k"]
  let groups := ["hearts", "diamonds", "clubs", "spades"]
  { name := "standard"
    cards := (faces.flatMap fun face => groups.map fun group => (face, group)).zipIdx.map
      fun ((face, group), id) => ⟨id, face, some group⟩
    faces, groups, grouping := none }

/-- The board: a hand for each player, and the draw and the discard pile. -/
def layout : Layout where
  name := name
  piles := [
    ⟨"hand", { owner := .player, visibility := .owner, tiling := .spread }⟩,
    ⟨"draw", { visibility := .none, removal := .top }⟩,
    ⟨"discard", { visible := some 1, removal := .none }⟩]
  shape := some "circle"
  playerLayout := none
  dealer := none
  commonPiles := [⟨1⟩, ⟨2⟩]
  playerPiles := [⟨0⟩]

/-! ### Components -/

/-- Puts a card from the hand on the discard pile. -/
def playCard : Action :=
  ⟨"play-card", some "play a card from your hand onto the discard pile.", .put,
    [.pile hand, .pile discard, .placeholder .card]⟩

/-- Takes the topmost card of the draw pile. -/
def drawCard : Action :=
  ⟨"draw-card", some "draw the top card of the draw pile.", .putTop, [.pile draw, .pile hand]⟩

/-- Passes the turn. -/
def pass : Action := ⟨"pass", some "pass the turn to the next player.", .endTurn, []⟩

/-- Wins the game. -/
def declareWin : Action := ⟨"declare-win", none, .playerWin, [.player .current]⟩

/-- Whether a card may be played. -/
def playable : Condition :=
  ⟨"playable", [
    ⟨false, .call .sameFace [.top discard, .placeholder .card], some .or⟩,
    ⟨false, .call .sameGroup [.top discard, .placeholder .card], some .or⟩,
    ⟨false, .call .checkRank [.placeholder .card, .top discard], none⟩], false⟩

/-- Whether the draw pile is used up. -/
def drawEmpty : Condition :=
  ⟨"draw-empty", [⟨false, .call .checkIfEmpty [.pile draw], none⟩], false⟩

/-- Whether the hand is. -/
def handEmpty : Condition :=
  ⟨"hand-empty", [⟨false, .call .checkIfEmpty [.pile hand], none⟩], false⟩

/-- Plays a card that may be played. -/
def play : ControlledAction :=
  ⟨"play", some "play a card matching the top of the discard pile, or any eight.",
    some ⟨⟨0⟩, false⟩, .action ⟨0⟩, none, .once⟩

/-- Wins the game once the hand is empty. -/
def checkWin : ControlledAction :=
  ⟨"check-win", none, some ⟨⟨2⟩, false⟩, .action ⟨3⟩, none, .once⟩

/-- Playing, and then looking whether the game is won. -/
def playEntry : AllowedAction := ⟨.controlled ⟨0⟩, none, [.controlled ⟨1⟩]⟩

/-- Drawing, while there are cards. -/
def drawEntry : AllowedAction := ⟨.action ⟨1⟩, some ⟨⟨1⟩, true⟩, []⟩

/-- Passing, when there are none. -/
def passEntry : AllowedAction := ⟨.action ⟨2⟩, some ⟨⟨1⟩, false⟩, []⟩

/-- The one phase there is; it ends with passing. -/
def turn : Phase := ⟨"turn", [], [playEntry, drawEntry, passEntry], [.action ⟨2⟩]⟩

/-- The components. -/
def graph : Graph where
  aliases := [⟨"discard-top", ["top.discard"]⟩]
  actions := [playCard, drawCard, pass, declareWin]
  controlled := [play, checkWin]
  conditions := [playable, drawEmpty, handEmpty]
  phases := [turn]

/-- The game. -/
def compiled : Game where
  name := name
  title := "crazy eights"
  leastPlayers := 2
  mostPlayers := 5
  deck := deck
  layout := layout
  ranking := ⟨[("8", 1)], []⟩
  direction := .clockwise
  deal :=
    { passes := 2, direction := .clockwise, collate := true
      playerPiles := [⟨⟨0⟩, .exactly 5⟩]
      commonPiles := [⟨⟨2⟩, .exactly 1⟩, ⟨⟨1⟩, .all⟩] }
  startPhase := ⟨0⟩
  graph := graph
  brief := some ("\n".intercalate briefLines)

/-! ## The documents -/

/-- The lines of the rules as they are read: five of them are written with capitals. -/
def rulesRead : List String :=
  rulesLines
    |>.set 0 "name crazy eights"
    |>.set 17 "play a card from your hand onto the discard pile."
    |>.set 20 "draw the top card of the draw pile."
    |>.set 23 "pass the turn to the next player."
    |>.set 38 "play a card matching the top of the discard pile, or any eight."

/-- The documents of the game. -/
def documents : Library where
  documents := [⟨.brief, name, briefLines⟩, ⟨.deck, "standard", deckLines⟩,
    ⟨.board, name, boardLines⟩, ⟨.rules, name, rulesRead⟩]

open Document (ReadsAs normalLines_intercalate)

/-- The lines of the rules are plain, and in lower case they are the lines that are read. -/
theorem reads_rules : List.Forall₂ (ReadsAs true) rulesLines rulesRead := by
  repeat first | exact .nil | refine .cons ⟨_, rfl, by decide, rfl⟩ ?_

/-- The lines of the board are plain and in lower case. -/
theorem reads_board : List.Forall₂ (ReadsAs true) boardLines boardLines := by
  repeat first | exact .nil | refine .cons ⟨_, rfl, by decide, rfl⟩ ?_

/-- The lines of the deck are plain and in lower case. -/
theorem reads_deck : List.Forall₂ (ReadsAs true) deckLines deckLines := by
  repeat first | exact .nil | refine .cons ⟨_, rfl, by decide, rfl⟩ ?_

/-- The lines of the brief are plain, and their case is kept. -/
theorem reads_brief : List.Forall₂ (ReadsAs false) briefLines briefLines := by
  repeat first | exact .nil | refine .cons ⟨_, rfl, by decide, rfl⟩ ?_

/-- A text of plain lines is stored as the document of these lines. -/
theorem addText_ok {l : Library} {kind : DocumentKind} {name : String} {ls ls' : List String}
    (hname : Text.asciiLower name = name) (hne : ls ≠ [])
    (h : List.Forall₂ (ReadsAs kind.ignoresCase) ls ls') :
    l.addText kind name ("\n".intercalate ls) = .ok (l.insert ⟨kind, name, ls'⟩) := by
  have hne' : ls'.isEmpty = false := by
    cases h with
    | nil => exact absurd rfl hne
    | cons => rfl
  rw [Library.addText, hname, Document.parse, normalLines_intercalate hne h]
  simp only [hne', Bool.false_eq_true, if_false]
  rfl

/-- The texts of the game are read as its documents. -/
theorem library_eq : library = .ok documents := by
  have hname : Text.asciiLower name = name := by decide +kernel
  have hdeck : Text.asciiLower "standard" = "standard" := by decide +kernel
  have hinsert : (((Library.empty.insert ⟨.rules, name, rulesRead⟩).insert
      ⟨.board, name, boardLines⟩).insert ⟨.deck, "standard", deckLines⟩).insert
      ⟨.brief, name, briefLines⟩ = documents := by rfl
  rw [← hinsert]
  refine bind_ok.2 ⟨_, addText_ok hname (by decide) reads_rules, ?_⟩
  refine bind_ok.2 ⟨_, addText_ok hname (by decide) reads_board, ?_⟩
  refine bind_ok.2 ⟨_, addText_ok hdeck (by decide) reads_deck, ?_⟩
  exact addText_ok hname (by decide) reads_brief

/-- The documents compile to the game. -/
theorem compile_documents : Game.compile documents name = .ok compiled := by decide +kernel

/-- The game that comes with the library. -/
theorem game_eq : game = .ok compiled := bind_ok.2 ⟨documents, library_eq, compile_documents⟩

end HouseRules.CrazyEights
