import HouseRules.Proofs.Deal.Order
import HouseRules.Proofs.Graph.Compile
import HouseRules.Proofs.Session.Play

/-!
# No session loses a card

Somebody who drives a game asks its session one thing after another (`Session.Request`), and what
happened before a failure has happened, so the session after a request is defined whether the
request succeeded or not (`Session.answer`). Whatever is asked, in whatever order, the cards on the
board, those out of play and those not dealt are together the deck.

The invariant is `Session.InPlay`: the table is one that play can reach, the dealer is ready for the
game, and the cards are all there. Questions and actions change the table only by calls of verbs,
which keep the first and the last (`Judge.preserves_cards`); dealing moves cards from the stock to
the board; a reset clears the board and gathers the deck.

Reference: `Engine.start`, `Engine.reset`, `Engine.perform` and the moves of `GameBoard`
(specification 8).
-/

namespace HouseRules

open Answer (Keeps)

/-- Calls keep a table within reach of play, and its cards. -/
theorem Judge.preserves_cards (j : Judge) (l : Layout) (count : Nat) (cards : Multiset Card) :
    j.Preserves fun t => t.Sound l count j.graph.phases.length ∧ t.board.bag = cards where
  dispatch _ _ _ _ ht h :=
    ⟨Operation.sound_dispatch ht.1 h, (Operation.bag_dispatch h).trans ht.2⟩
  inPhases _ ht := ht.1.inPhases

namespace Session

/-! ## Requests -/

/-- What a session may be asked, other than to show itself. -/
inductive Request where
  | start
  | reset
  | allowed
  | allowedFor (seat : Seat)
  | checkCondition (name : String)
  | perform (offer : Offer) (values : List Value)
  deriving Repr, DecidableEq

/-- The session after a request, whether it succeeded or failed. -/
def answer (s : Session) : Request → Session
  | .start => s.start.2
  | .reset => s.reset
  | .allowed => s.allowed.2
  | .allowedFor seat => (s.allowedFor seat).2
  | .checkCondition name => (s.checkCondition name).2
  | .perform offer values => (s.perform offer values).2

/-- The session after some requests. -/
def answerAll (s : Session) (requests : List Request) : Session := requests.foldl answer s

/-! ## What holds of a session -/

/-- A session of a game for a number of players, at any time: the table is within reach of play, the
dealer is ready, and no card is missing. -/
structure InPlay (s : Session) (g : Game) (count : Nat) : Prop where
  game : s.game = g
  table : s.table.Sound g.layout count g.graph.phases.length
  dealer : s.dealer.ReadyFor g count
  cards : s.table.board.bag + s.dealer.stock.rest = (g.deck.cards : Multiset Card)

/-- What a judge keeps of the table of a session in play. -/
abbrev KeepsTable {α : Type} (s : Session) (g : Game) (count : Nat) (r : Answer α) : Prop :=
  Keeps (fun t => t.Sound g.layout count g.graph.phases.length ∧
    t.board.bag = s.table.board.bag) r

variable {s : Session} {g : Game} {count : Nat}

/-- The judge of a session keeps the table within reach and its cards. -/
theorem InPlay.preserves (h : s.InPlay g count) (cards : Multiset Card) :
    s.judge.Preserves fun t =>
      t.Sound g.layout count g.graph.phases.length ∧ t.board.bag = cards := by
  have := s.judge.preserves_cards g.layout count cards
  rwa [show s.judge.graph = g.graph from congrArg Game.graph h.game] at this

/-- Nobody is in a phase that the judge does not know. -/
theorem InPlay.inPhases (h : s.InPlay g count) :
    s.table.InPhases s.judge.graph.phases.length := by
  rw [judge, h.game]
  exact h.table.inPhases

/-- The graph of a session in play is closed. -/
theorem InPlay.closed (hg : g.WellFormed) (h : s.InPlay g count) :
    s.judge.graph.Closed g.layout := by
  rw [show s.judge.graph = g.graph from congrArg Game.graph h.game]
  exact hg.closed

/-- The board has the piles of the layout. -/
theorem InPlay.frame (h : s.InPlay g count) : s.table.board.clear = .ofLayout g.layout count :=
  h.table.seated ▸ h.table.frame

/-- A session with another table within reach that has the same cards is in play. -/
theorem InPlay.withTable (h : s.InPlay g count) {t : Table}
    (ht : t.Sound g.layout count g.graph.phases.length ∧ t.board.bag = s.table.board.bag) :
    { s with table := t }.InPlay g count :=
  ⟨h.game, ht.1, h.dealer, ht.2 ▸ h.cards⟩

/-- So is one with the table of an answer that kept it. -/
theorem InPlay.after {α : Type} (h : s.InPlay g count) {r : Answer α}
    (hr : s.KeepsTable g count r) : (s.after r).2.InPlay g count :=
  h.withTable hr.1

/-- The cards of a pile are cards of the deck, each of them once. -/
theorem InPlay.cardsAt_le (h : s.InPlay g count) (id : PileId) :
    (s.table.board.cardsAt id : Multiset Card) ≤ g.deck.cards :=
  calc (s.table.board.cardsAt id : Multiset Card) ≤ s.table.board.bag :=
        Multiset.coe_le.2 (s.table.board.cardsAt_sublist id).subperm
    _ ≤ s.table.board.bag + s.dealer.stock.rest := Multiset.le_add_right ..
    _ = g.deck.cards := h.cards

/-! ## Beginning -/

/-- A session that is created is in play. -/
theorem inPlay_create (hg : g.WellFormed) {names : List String} {config : Config}
    (h : create g names config = .ok s) : s.InPlay g names.length := by
  simp only [create, bind_ok, pure_ok] at h
  obtain ⟨⟨⟩, hcheck, rfl⟩ := h
  obtain ⟨hsome, hnumbered⟩ := hg.count_of_check hcheck
  have hplayers : ∀ seated : String × Seat → Player,
      ((names.zip (Seat.all names.length)).map seated).length = names.length := fun seated => by
    rw [List.length_map, List.length_zip, Seat.length_all]
    omega
  refine ⟨rfl, ⟨Table.SetFor.fresh g.layout (hplayers _) hsome hnumbered _ _, hplayers _, ?_⟩,
    Dealer.readyFor_fresh hg hsome hnumbered _, ?_⟩
  · intro p hp id hid
    obtain ⟨_, -, rfl⟩ := List.mem_map.1 hp
    cases hid
  · have hempty : (Board.ofLayout g.layout names.length).bag = 0 := by
      rw [← Board.clear_ofLayout, Board.bag_clear]
    exact (congrArg (· + _) hempty).trans ((zero_add _).trans (Dealer.rest_reset _))

/-- Whoever has set up a session begins to deal. -/
theorem begins_create (hg : g.WellFormed) {names : List String} {config : Config}
    (h : create g names config = .ok s) : s.dealer.Begins g names.length := by
  simp only [create, bind_ok, pure_ok] at h
  obtain ⟨⟨⟩, hcheck, rfl⟩ := h
  obtain ⟨hsome, hnumbered⟩ := hg.count_of_check hcheck
  exact Dealer.begins_fresh g hsome hnumbered _

/-- So does whoever has reset one. -/
theorem InPlay.begins_reset (h : s.InPlay g count) : s.reset.dealer.Begins g count :=
  Dealer.begins_reset (h.table.seated ▸ Nat.zero_lt_of_lt h.table.current) h.dealer.deck
    h.dealer.plan h.dealer.seats

/-- Resetting leaves a session in play. -/
theorem InPlay.reset (hg : g.WellFormed) (h : s.InPlay g count) : s.reset.InPlay g count := by
  have hsome : 0 < count := h.table.seated ▸ Nat.zero_lt_of_lt h.table.current
  have hcount : s.reset.table.count = s.table.count := List.length_map ..
  have hseated := hcount.trans h.table.seated
  refine ⟨h.game, ⟨⟨?_, ?_, hcount ▸ h.table.numbered⟩, hseated, ?_⟩, ?_, ?_⟩
  · rw [hcount, ← Board.clear_ofLayout, ← h.table.frame]
    rfl
  · exact hseated ▸ hsome
  · exact Table.InPhases.modifyPlayers (t := s.table) fun p _ id hid => by cases hid
  · exact Dealer.readyFor_reset hg hsome (h.table.seated ▸ h.table.numbered) h.dealer.deck
      h.dealer.plan h.dealer.seats
  · have hempty : s.reset.table.board.bag = 0 := Board.bag_clear _
    have hall : (s.reset.dealer.stock.rest : Multiset Card) = s.dealer.stock.deck.cards :=
      s.dealer.rest_reset
    rw [hempty, zero_add, hall, h.dealer.deck]

/-- Dealing leaves a session in play. -/
theorem InPlay.deal (hg : g.WellFormed) (h : s.InPlay g count) : s.deal.InPlay g count := by
  obtain ⟨n, dealer, board, hall, hready, hclear, hbag⟩ := h.dealer.dealAll h.frame
  have hdeal : s.deal = { s with
      table := ({ s.table with board } : Table).modifyPlayers fun p =>
        { p with phase := some s.game.startPhase }
      dealer, started := true } := by
    rw [Session.deal, hall]
  have hcount : s.deal.table.count = s.table.count := by
    rw [hdeal]
    exact List.length_map ..
  have hseated := hcount.trans h.table.seated
  refine ⟨?_, ⟨⟨?_, ?_, hcount ▸ h.table.numbered⟩, hseated, ?_⟩, ?_, ?_⟩
  · rw [hdeal]
    exact h.game
  · rw [hseated, hdeal, ← h.frame]
    exact hclear
  · rw [hseated, hdeal]
    exact h.table.seated ▸ h.table.current
  · rw [hdeal]
    refine Table.InPhases.modifyPlayers (t := { s.table with board }) fun p _ id hid => ?_
    cases hid
    exact h.game ▸ hg.startPhase
  · rw [hdeal]
    exact hready
  · rw [hdeal]
    exact hbag.trans h.cards

/-- A dealer who begins puts the cards on the board by the schedule of the game. -/
theorem InPlay.table_deal (h : s.InPlay g count) (hdealer : s.dealer.Begins g count) :
    s.deal.table = ({ s.table with
      board := ((g.deal.schedule (g.deal.direction.order count) g.deck.size).zip
        s.dealer.stock.rest).foldl Board.place s.table.board } : Table).modifyPlayers fun p =>
          { p with phase := some s.game.startPhase } := by
  have hserves : ∀ x ∈ s.dealer.upcoming g.deck.size, s.table.board.Serves x.1 := fun x hx =>
    (h.dealer.served x hx).congr (by rw [h.frame, Board.clear_ofLayout])
  obtain ⟨d, hall, -⟩ := Dealer.dealAll_spec h.dealer.inStep hserves
  rw [Session.deal, hall, hdealer.upcoming]

/-- Dealing anew leaves a session in play. -/
theorem InPlay.dealt (hg : g.WellFormed) (h : s.InPlay g count) : s.dealt.InPlay g count := by
  unfold Session.dealt
  split
  · exact (h.reset hg).deal hg
  · exact h.deal hg

/-- Starting leaves a session in play, with an error or without. -/
theorem InPlay.start (hg : g.WellFormed) (h : s.InPlay g count) : s.start.2.InPlay g count := by
  have hdealt : s.dealt.InPlay g count := h.dealt hg
  exact hdealt.after (Judge.enterPhase_keeps (hdealt.closed hg) (hdealt.preserves _)
    ⟨hdealt.table, rfl⟩)

/-! ## Questions and turns -/

/-- Asking what a player may do leaves a session in play. -/
theorem InPlay.allowedFor (hg : g.WellFormed) (h : s.InPlay g count) (seat : Seat) :
    (s.allowedFor seat).2.InPlay g count := by
  rw [snd_allowedFor]
  exact h.withTable (allowedFor_keeps (h.closed hg) (h.preserves _) ⟨h.table, rfl⟩ seat)

/-- Checking a condition leaves a session in play. -/
theorem InPlay.checkCondition (hg : g.WellFormed) (h : s.InPlay g count) (name : String) :
    (s.checkCondition name).2.InPlay g count := by
  rw [snd_checkCondition]
  exact h.withTable (checkCondition_keeps (h.closed hg) (h.preserves _) ⟨h.table, rfl⟩ name)

/-- Performing what is on offer leaves a session in play, with an error or without. -/
theorem InPlay.perform (hg : g.WellFormed) (h : s.InPlay g count) (offer : Offer)
    (values : List Value) : (s.perform offer values).2.InPlay g count := by
  rw [snd_perform]
  exact h.withTable (perform_keeps (h.closed hg) (h.preserves _) ⟨h.table, rfl⟩ offer values)

/-! ## Sequences of requests -/

/-- Whatever a session is asked, it is in play afterwards. -/
theorem InPlay.answer (hg : g.WellFormed) (h : s.InPlay g count) (request : Request) :
    (s.answer request).InPlay g count := by
  cases request with
  | start => exact h.start hg
  | reset => exact h.reset hg
  | allowed => exact h.allowedFor hg s.table.current
  | allowedFor seat => exact h.allowedFor hg seat
  | checkCondition name => exact h.checkCondition hg name
  | perform offer values => exact h.perform hg offer values

/-- Whatever is requested of it, a session stays in play. -/
theorem InPlay.answerAll (hg : g.WellFormed) (h : s.InPlay g count) (requests : List Request) :
    (s.answerAll requests).InPlay g count := by
  induction requests generalizing s with
  | nil => exact h
  | cons request requests ih => exact ih (h.answer hg request)

/-- However a compiled game is played, the cards in all piles, those out of play and those not yet
dealt are those of the deck. -/
theorem conserves_cards {rules deck board : Document} {brief : Option Document} {g : Game}
    {names : List String} {config : Config} {s : Session}
    (hgame : Game.ofDocuments rules deck board brief = .ok g)
    (hs : create g names config = .ok s) (requests : List Request) :
    (s.answerAll requests).table.board.bag + (s.answerAll requests).dealer.stock.rest =
      (g.deck.cards : Multiset Card) := by
  have hg := Game.wellFormed_of_ofDocuments hgame
  exact ((inPlay_create hg hs).answerAll hg requests).cards

/-! ## Two players draw -/

/-- A deck of five cards. -/
def drawingDeck : Document where
  kind := .deck
  name := "drawing"
  lines := ["size 5", "faces a b c d e", "cards all"]

/-- Two players sit down at the game of drawing. -/
def drawing : Compiled (Game × Session) := do
  let g ← Game.ofDocuments Graph.drawingRules drawingDeck Graph.drawingBoard none
  let s ← create g ["ann", "bob"] { seed := 1 }
  return (g, s)

/-- They begin, the first one draws a card and asks for something that is not on offer, and they
begin again. -/
theorem drawing_conserves_cards :
    ∃ g s, Game.ofDocuments Graph.drawingRules drawingDeck Graph.drawingBoard none = .ok g ∧
      create g ["ann", "bob"] { seed := 1 } = .ok s ∧
      let s' := s.answerAll [.start, .allowed, .perform ⟨⟨0⟩, 0, .action ⟨0⟩⟩ [],
        .perform ⟨⟨1⟩, 0, .action ⟨0⟩⟩ [], .start]
      s'.table.board.bag + s'.dealer.stock.rest = (g.deck.cards : Multiset Card) := by
  have hok : drawing.isOk = true := by decide +kernel
  obtain ⟨⟨g, s⟩, h⟩ := Succeeds.of_isOk hok
  simp only [drawing, bind_ok, pure_ok] at h
  obtain ⟨_, hgame, _, hs, heq⟩ := h
  cases heq
  exact ⟨g, s, hgame, hs, conserves_cards hgame hs _⟩

end Session

end HouseRules
