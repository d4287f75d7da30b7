import HouseRules.Proofs.CrazyEights.Deal

/-!
# Crazy Eights never gets stuck

Whatever two to five players ask of a session of Crazy Eights once it has started, other than to be
set up anew, it is in good order afterwards (`CrazyEights.never_stuck`): there is a card to play on,
and either everybody has cards and something can be done without choosing a card, or the player
whose turn it is has won. This holds for every order of the deck, and whatever failed or was refused
on the way.

Reference: `games.crazy_eights` played through `Engine` (specification E5).
-/

namespace HouseRules

/-- The cards of the pile of a name, as the player in a seat means it, from bottom to top. -/
def Session.cards? (s : Session) (name : String) (seat : Seat) : Option (List Card) :=
  (s.findPile? name seat).bind fun id => (s.table.board.pile? id).map (·.cards)

/-- The cards that a pile is said to show are those that lie on it. -/
theorem Session.cards?_eq {s : Session} {name : String} {seat : Seat} {id : PileId} {p : Pile}
    (hfind : s.findPile? name seat = some id) (hp : s.table.board.pile? id = some p) :
    s.cards? name seat = some (s.table.board.cardsAt id) := by
  rw [cards?, hfind, Option.bind_some, hp, Board.cardsAt_of_pile? hp]
  rfl

/-- The session after it was started with the cards in some order, and asked some requests. -/
def Session.course (s : Session) (order : List Card) (requests : List Session.Request) : Session :=
  (s.withOrder order).start.2.answerAll requests

namespace CrazyEights

variable {s : Session} {n : Nat}

/-! ## Runs -/

/-- What is asked of a game that has started leaves it started, but for a reset. -/
theorem Underway.answer (h : Underway s n) {request : Session.Request}
    (hrequest : request ≠ .reset) : Underway (s.answer request) n := by
  cases request with
  | start =>
    have hfresh : Fresh (if s.started then s.reset else s) n := by
      rw [if_pos h.started]
      exact fresh_reset h
    rw [Session.answer, start_eq hfresh]
    exact hfresh.underway_deal
  | reset => exact absurd rfl hrequest
  | allowed =>
    rw [Session.answer, Session.allowed, h.allowedFor]
    exact h
  | allowedFor seat =>
    rw [Session.answer, h.allowedFor]
    exact h
  | checkCondition name =>
    rw [Session.answer, h.checkCondition]
    exact h
  | perform offer values => exact h.perform offer values

/-- A game that is underway stays so whatever is asked of it, a new game apart. -/
theorem Underway.answerAll (h : Underway s n) {requests : List Session.Request}
    (hrequests : .reset ∉ requests) : Underway (s.answerAll requests) n := by
  induction requests generalizing s with
  | nil => exact h
  | cons request requests ih =>
    rw [List.mem_cons, not_or] at hrequests
    exact ih (h.answer (Ne.symm hrequests.1)) hrequests.2

/-! ## What holds at any time -/

namespace Underway

variable (h : Underway s n)

include h

/-- The hand of a seat is found by its name. -/
theorem cards?_hand {seat : Seat} (hseat : seat.index < n) :
    s.cards? "hand" seat = some (s.table.board.cardsAt (handPile seat)) := by
  have hframe := frame_of_inPlay h.inPlay
  obtain ⟨p, hp, -⟩ := exists_hand hframe h.atMost hseat
  refine Session.cards?_eq ?_ hp
  rw [Session.findPile?, h.inPlay.game]
  exact find_hand hframe h.atMost hseat

/-- The discard pile is found by its name. -/
theorem cards?_discard :
    s.cards? "discard" .first = some (s.table.board.cardsAt (discardPile n)) := by
  have hfirst : Seat.first.index < n := Nat.lt_of_lt_of_le Nat.zero_lt_two h.atLeast
  have hframe := frame_of_inPlay h.inPlay
  obtain ⟨p, hp, -⟩ := exists_discard hframe h.atMost hfirst
  refine Session.cards?_eq ?_ hp
  rw [Session.findPile?, h.inPlay.game]
  exact find_discard hframe h.atMost hfirst

/-- A game that is not over goes on. -/
theorem going (hover : s.table.isOver = false) : Going s.table n := by
  rcases h.state with hgoing | hended
  · exact hgoing
  · cases hover.symm.trans hended.isOver_eq

/-- A game underway that has a verdict has been won by one player. -/
theorem ended (hover : s.table.isOver = true) : Over s.table n := by
  rcases h.state with hgoing | hended
  · cases hover.symm.trans hgoing.isOver_eq
  · exact hended

end Underway

/-- A session of the game for `n` players is in good order. -/
structure InOrder (s : Session) (n : Nat) : Prop where
  count : s.table.count = n
  /-- There is a card on the discard pile. -/
  discard : ∃ cards, s.cards? "discard" .first = some cards ∧ cards ≠ []
  /-- While the game is not over everybody plays and has a card. -/
  playing : s.table.isOver = false → ∀ seat : Seat, seat.index < n →
    (∃ p, s.player? seat = some p ∧ p.status = .playing) ∧
      ∃ cards, s.cards? "hand" seat = some cards ∧ cards ≠ []
  /-- Then something is on offer that needs no values and takes effect. -/
  offered : s.table.isOver = false → ∃ offers, s.allowed = (.ok offers, s) ∧
    ∃ offer ∈ offers, s.options offer = .ok [] ∧ (s.perform offer []).1 = .ok true
  /-- What takes effect and does not end the game makes the next player clockwise current. -/
  clockwise : ∀ offer values s', s.perform offer values = (.ok true, s') →
    s'.table.isOver = false → s'.table.current = ⟨(s.table.current.index + 1) % n⟩
  /-- Once the game is over the current player has won it, and nobody else is out of cards. -/
  won : s.table.isOver = true → s.table.verdict? = some (.winner s.table.current) ∧
    s.cards? "hand" s.table.current = some [] ∧
      ∀ seat : Seat, seat.index < n → seat ≠ s.table.current →
        ∃ cards, s.cards? "hand" seat = some cards ∧ cards ≠ []

/-- While the game is underway its session is in good order. -/
theorem Underway.inOrder (h : Underway s n) : InOrder s n where
  count := h.inPlay.table.seated
  discard := by
    refine ⟨_, h.cards?_discard, ?_⟩
    rcases h.state with hgoing | hover
    · exact hgoing.discarded
    · exact hover.discarded
  playing hover seat hseat := by
    have hgoing := h.going hover
    obtain ⟨p, hp, hstatus, -⟩ := hgoing.exists_player hseat
    exact ⟨⟨p, hp, hstatus⟩, _, h.cards?_hand hseat, hgoing.hands seat hseat⟩
  offered hover := exists_offer h.inPlay h.started (h.going hover)
  clockwise offer values s' hperform hover := by
    have hspec := perform_spec h offer values
    rw [hperform] at hspec
    rcases hspec with ⟨-, hgoing, hturn⟩ | ⟨hnot, -⟩
    · rcases hturn.keeps hgoing with ⟨-, hcurrent⟩ | hended
      · exact hcurrent
      · cases hover.symm.trans hended.isOver_eq
    · exact absurd rfl hnot
  won hover := by
    have hended := h.ended hover
    have hcurrent : s.table.current.index < n :=
      Nat.lt_of_lt_of_eq h.inPlay.table.current h.inPlay.table.seated
    refine ⟨hended.verdict, ?_, fun seat hseat hne =>
      ⟨_, h.cards?_hand hseat, hended.hands seat hseat hne⟩⟩
    rw [h.cards?_hand hcurrent, hended.handEmpty]

/-! ## The game -/

/-- Players whose number the game admits can sit down, and then start with the deck in any order. -/
theorem exists_create {names : List String} (hleast : 2 ≤ names.length) (hmost : names.length ≤ 5)
    (config : Config) :
    ∃ s, Session.create compiled names config = .ok s ∧ Fresh s names.length ∧
      ∀ order : List Card, order.Perm deck.cards →
        (s.withOrder order).start = (.ok (), (s.withOrder order).deal) ∧
          Underway (s.withOrder order).deal names.length := by
  have hcheck : compiled.checkPlayerCount names.length = .ok () :=
    Game.checkPlayerCount_ok.2 ⟨hleast, hmost⟩
  obtain ⟨s, hs, hstarted⟩ : ∃ s, Session.create compiled names config = .ok s ∧
      s.started = false := ⟨_, bind_ok.2 ⟨(), hcheck, rfl⟩, rfl⟩
  have hfresh := fresh_create hs
  refine ⟨s, hs, hfresh, fun order horder => ?_⟩
  have hordered : Fresh (s.withOrder order) names.length := hfresh.withOrder horder
  have hsame : (if (s.withOrder order).started then (s.withOrder order).reset
      else s.withOrder order) = s.withOrder order :=
    if_neg (by rw [Session.withOrder, hstarted]; exact Bool.false_ne_true)
  have hstart := start_eq (hsame.symm ▸ hordered)
  rw [hsame] at hstart
  exact ⟨hstart, hordered.underway_deal⟩

/-- A game of Crazy Eights for two to five players can be set up and started with the deck in any
order, and whatever is asked of it from then on, short of setting it up anew, it is in good
order. -/
theorem never_stuck (names : List String) (hleast : 2 ≤ names.length) (hmost : names.length ≤ 5)
    (config : Config) :
    ∃ g s, game = .ok g ∧ Session.create g names config = .ok s ∧
      s.dealer.stock.rest.Perm g.deck.cards ∧
      ∀ order : List Card, order.Perm g.deck.cards →
        (s.withOrder order).start.1 = .ok () ∧
        ∀ requests : List Session.Request, .reset ∉ requests →
          InOrder (s.course order requests) names.length := by
  obtain ⟨s, hs, hfresh, hstart⟩ := exists_create hleast hmost config
  refine ⟨compiled, s, game_eq, hs, hfresh.dealer.shuffled, fun order horder => ?_⟩
  obtain ⟨hdeal, hunderway⟩ := hstart order horder
  simp only [Session.course, hdeal]
  exact ⟨trivial, fun requests hrequests => (hunderway.answerAll hrequests).inOrder⟩

/-- Two players who draw, try to pass and ask what they may do. -/
theorem two_never_stuck :
    ∃ g s, game = .ok g ∧ Session.create g ["ann", "bob"] { seed := 1 } = .ok s ∧
      InOrder (s.start.2.answerAll [.perform drawOffer [], .perform playOffer [],
        .perform passOffer [.integer 7], .start, .allowed]) 2 := by
  obtain ⟨g, s, hgame, hs, hshuffled, hall⟩ :=
    never_stuck ["ann", "bob"] (by decide) (by decide) { seed := 1 }
  have horder := (hall s.dealer.stock.rest hshuffled).2 [.perform drawOffer [],
    .perform playOffer [], .perform passOffer [.integer 7], .start, .allowed] (by decide)
  rw [Session.course, Session.withOrder_self] at horder
  exact ⟨g, s, hgame, hs, horder⟩

end CrazyEights

end HouseRules
