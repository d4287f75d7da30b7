import HouseRules.Game.Reader

/-!
# Crazy Eights

A game that comes with the library. Two to five players get five cards each and play cards that
match the top of the discard pile in face or suit, eights always; who cannot or will not play draws,
and passes once the draw pile is used up. Who first has no cards left wins.

Reference: `games.crazy_eights` and its bundled rule texts (specification E5).
-/

namespace HouseRules.CrazyEights

/-- The name of the game's documents. -/
def name : String := "crazy-eights"

/-- The lines of the rules. -/
def rulesLines : List String := [
  "name Crazy Eights",
  "players 2 5",
  "deck standard",
  "board crazy-eights",
  "direction-of-play clockwise",
  "ranking",
  "8",
  "end-ranking",
  "deal",
  "shuffle 2",
  "collate true",
  "player-piles hand 5",
  "common-piles discard 1 draw all",
  "deal-end",
  "alias discard-top top.discard",
  "action play-card",
  "put pile.hand pile.discard card",
  "Play a card from your hand onto the discard pile.",
  "action draw-card",
  "put-top pile.draw pile.hand",
  "Draw the top card of the draw pile.",
  "action pass",
  "end-turn",
  "Pass the turn to the next player.",
  "action declare-win",
  "player-win player.current",
  "end-action",
  "condition playable",
  "match-face discard-top card or",
  "match-group discard-top card or",
  "check-rank card discard-top",
  "condition draw-empty",
  "check-if-empty pile.draw",
  "condition hand-empty",
  "check-if-empty pile.hand",
  "end-condition",
  "controlled-action play",
  "playable play-card",
  "Play a card matching the top of the discard pile, or any eight.",
  "controlled-action check-win",
  "hand-empty declare-win",
  "end-controlled-action",
  "phase turn",
  "allow",
  "allow play then check-win",
  "not draw-empty draw-card",
  "draw-empty pass",
  "end-allow",
  "do pass",
  "end-phase",
  "start-phase turn"]

/-- The lines of the board. -/
def boardLines : List String := [
  "cardpile hand",
  "owner player",
  "visibility owner",
  "tiling spread",
  "cardpile draw",
  "visibility none",
  "removal top",
  "cardpile discard",
  "visible 1",
  "removal none",
  "board-layout",
  "shape circle",
  "common-piles draw discard",
  "player-piles hand"]

/-- The lines of the deck. -/
def deckLines : List String := [
  "size 52",
  "faces a 2 3 4 5 6 7 8 9 10 j q k",
  "groups hearts diamonds clubs spades",
  "cards all"]

/-- The lines of the brief. -/
def briefLines : List String := [
  "Crazy Eights",
  "Each player is dealt five cards. One card starts the discard pile and",
  "the rest form the draw pile.",
  "On your turn play one card that matches the top discard by face or by",
  "suit. Eights are wild and may be played on anything. If you cannot or",
  "will not play, draw a card. When the draw pile is empty you may pass.",
  "The first player to empty their hand wins."]

/-- A library of the game's documents. Reference: `crazy_eights.library`. -/
def library : Compiled Library := do
  let text (lines : List String) : String := "\n".intercalate lines
  let l ← Library.empty.addText .rules name (text rulesLines)
  let l ← l.addText .board name (text boardLines)
  let l ← l.addText .deck "standard" (text deckLines)
  l.addText .brief name (text briefLines)

/-- The compiled game. Reference: `crazy_eights.rules`. -/
def game : Compiled Game := do Game.compile (← library) name

end HouseRules.CrazyEights
