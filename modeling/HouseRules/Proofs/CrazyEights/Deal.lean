import HouseRules.Proofs.CrazyEights.Course
import HouseRules.Proofs.Deal.Order

/-!
# Dealing Crazy Eights

Whatever order the cards are in, everybody gets cards and one goes to the discard pile, so a game
that starts goes on (`CrazyEights.Fresh.start_eq`). This holds of a session that has been set up
(`CrazyEights.fresh_create`), of one whose cards are then brought into another order
(`CrazyEights.Fresh.withOrder`), and of one that is begun anew (`CrazyEights.fresh_reset`).
-/

namespace HouseRules

/-! ## Another order -/

namespace Session

/-- The session with the cards that are not dealt in another order. -/
def withOrder (s : Session) (order : List Card) : Session :=
  { s with dealer := s.dealer.withOrder order }

/-- The order that the deck was shuffled into is one of them. -/
@[simp] theorem withOrder_self (s : Session) : s.withOrder s.dealer.stock.rest = s := rfl

/-- A session stays in play when the cards that are to be dealt come in another order. -/
theorem InPlay.withOrder {s : Session} {g : Game} {count : Nat} (h : s.InPlay g count)
    {order : List Card} (horder : order.Perm s.dealer.stock.rest) :
    (s.withOrder order).InPlay g count := by
  refine ⟨h.game, h.table, h.dealer.withOrder horder.length_eq, ?_⟩
  have hcards : (order : Multiset Card) = s.dealer.stock.rest := Multiset.coe_eq_coe.2 horder
  exact (congrArg (s.table.board.bag + ·) hcards).trans h.cards

end Session

namespace CrazyEights

open Session (create)

/-- The schedule of the deal for `n` players. -/
def schedule (n : Nat) : List DealTarget :=
  compiled.deal.schedule (compiled.deal.direction.order n) compiled.deck.size

/-- Everybody gets a card, and so does the discard pile. -/
theorem mem_schedule : ∀ n ≤ 5, 2 ≤ n →
    (⟨⟨2⟩, none⟩ : DealTarget) ∈ schedule n ∧
      ∀ i < n, (⟨⟨0⟩, some ⟨i⟩⟩ : DealTarget) ∈ schedule n := by
  decide +kernel

/-- A session of the game before it starts: the deck is shuffled and the whole deal lies ahead. -/
structure Fresh (s : Session) (n : Nat) : Prop where
  inPlay : s.InPlay compiled n
  atLeast : 2 ≤ n
  atMost : n ≤ 5
  playing : ∀ p ∈ s.table.players, p.status = .playing
  direction : s.table.direction = .clockwise
  dealer : s.dealer.Begins compiled n

variable {s : Session} {n : Nat}

/-! ## Sessions that may start -/

/-- Players who have sat down may start. -/
theorem fresh_create {names : List String} {config : Config}
    (h : create compiled names config = .ok s) : Fresh s names.length := by
  have hinPlay := Session.inPlay_create wellFormed h
  have hdealer := Session.begins_create wellFormed h
  simp only [create, bind_ok, pure_ok] at h
  obtain ⟨⟨⟩, hcheck, hs⟩ := h
  obtain ⟨hleast, hmost⟩ : 2 ≤ names.length ∧ names.length ≤ 5 :=
    Game.checkPlayerCount_ok.1 hcheck
  refine ⟨hinPlay, hleast, hmost, ?_, hs ▸ rfl, hdealer⟩
  intro p hp
  rw [← hs] at hp
  obtain ⟨_, -, rfl⟩ := List.mem_map.1 hp
  rfl

/-- So may players whose cards are in another order. -/
theorem Fresh.withOrder (h : Fresh s n) {order : List Card}
    (horder : order.Perm compiled.deck.cards) : Fresh (s.withOrder order) n :=
  ⟨h.inPlay.withOrder (horder.trans h.dealer.shuffled.symm), h.atLeast, h.atMost, h.playing,
    h.direction, h.dealer.withOrder horder⟩

/-- So may players who have started before. -/
theorem fresh_reset (h : Underway s n) : Fresh s.reset n := by
  refine ⟨h.inPlay.reset wellFormed, h.atLeast, h.atMost, ?_, ?_, h.inPlay.begins_reset⟩
  · intro p hp
    obtain ⟨_, -, rfl⟩ := List.mem_map.1 hp
    rfl
  · exact congrArg Game.direction h.inPlay.game

/-! ## The deal -/

/-- The cards are dealt by the schedule. -/
theorem Fresh.table_deal (h : Fresh s n) :
    s.deal.table = ({ s.table with
      board := ((schedule n).zip s.dealer.stock.rest).foldl Board.place s.table.board } :
        Table).modifyPlayers fun p => { p with phase := some s.game.startPhase } :=
  h.inPlay.table_deal h.dealer

/-- The board once all is dealt: every card of the stock put at its place in the schedule. -/
theorem Fresh.board_deal (h : Fresh s n) :
    s.deal.table.board =
      ((schedule n).zip s.dealer.stock.rest).foldl Board.place s.table.board := by
  rw [h.table_deal]
  rfl

/-- Dealing changes nobody's turn. -/
theorem Fresh.current_deal (h : Fresh s n) : s.deal.table.current = s.table.current := by
  rw [h.table_deal]
  rfl

/-- Everybody has cards after the deal, and one lies on the discard pile. -/
theorem Fresh.going_deal (h : Fresh s n) : Going s.deal.table n := by
  have hframe := frame_of_inPlay h.inPlay
  have hdealt {target : DealTarget} (hmem : target ∈ schedule n) {id : PileId}
      (hid : s.table.board.find? target.slot (target.receiver.getD .first) = some id) :
      s.deal.table.board.cardsAt id ≠ [] := by
    obtain ⟨card, hcard⟩ := h.dealer.exists_card hmem
    rw [h.dealer.upcoming] at hcard
    rw [h.board_deal]
    exact List.ne_nil_of_mem (Board.mem_cardsAt_foldl_place hcard hid)
  have hfirst : Seat.first.index < n := Nat.lt_of_lt_of_le Nat.zero_lt_two h.atLeast
  obtain ⟨hdiscard, hhands⟩ := mem_schedule n h.atMost h.atLeast
  refine ⟨⟨(h.inPlay.deal wellFormed).table, h.atLeast, h.atMost, ?_, ?_⟩, ?_, ?_⟩
  · intro p hp
    rw [h.table_deal] at hp
    obtain ⟨q, hq, rfl⟩ := List.mem_map.1 hp
    exact ⟨h.playing q hq, by rw [h.inPlay.game]; rfl⟩
  · rw [h.table_deal]
    exact h.direction
  · exact hdealt hdiscard (find_discard hframe h.atMost hfirst)
  · intro seat hseat
    exact hdealt (hhands seat.index hseat) (find_hand hframe h.atMost hseat)

/-- When the cards are dealt the game is underway. -/
theorem Fresh.underway_deal (h : Fresh s n) : Underway s.deal n :=
  ⟨h.inPlay.deal wellFormed, h.atLeast, h.atMost, rfl, .inl h.going_deal⟩

/-- Starting succeeds, and does no more than deal. -/
theorem start_eq (h : Fresh (if s.started then s.reset else s) n) :
    s.start = (.ok (), (if s.started then s.reset else s).deal) := by
  rw [Session.start, judge_eq h.underway_deal.inPlay.game, h.going_deal.toPlaying.enterPhase_eq]
  rfl

end CrazyEights

end HouseRules
