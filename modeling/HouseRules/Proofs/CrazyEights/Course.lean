import HouseRules.Proofs.CrazyEights.Turn
import HouseRules.Proofs.Session.Offers

/-!
# The course of a game of Crazy Eights

A game goes on until somebody has played their last card (`CrazyEights.Turn.keeps`). What the
players ask of a session is a turn of this game or changes nothing (`CrazyEights.perform_spec`), as
neither listing what is on offer nor asking a condition moves a card. While the game goes on a
player may play a card, and draw one or, when there are none to draw, pass
(`CrazyEights.allowedFor_eq`); one of the latter two always takes effect
(`CrazyEights.exists_offer`).
-/

namespace HouseRules.CrazyEights

variable {t t' : Table} {n : Nat}

/-! ## What a turn leads to -/

/-- A game that is over: the player whose turn it is has won, and is the only one without cards. -/
structure Over (t : Table) (n : Nat) : Prop where
  verdict : t.verdict? = some (.winner t.current)
  discarded : t.board.cardsAt (discardPile n) ≠ []
  handEmpty : t.board.cardsAt (handPile t.current) = []
  hands : ∀ seat : Seat, seat.index < n → seat ≠ t.current → t.board.cardsAt (handPile seat) ≠ []

/-- A table at which the game has ended has a verdict. -/
theorem Over.isOver_eq (h : Over t n) : t.isOver = true := by
  rw [Table.isOver, h.verdict]
  rfl

/-- A game goes on when the turn is passed. -/
theorem Going.advanceTurn (h : Going t n) : Going t.advanceTurn n := by
  have hboard := h.board_advanceTurn
  exact ⟨h.toPlaying.advanceTurn, hboard ▸ h.discarded, hboard ▸ h.hands⟩

/-- The only hand that a move takes cards from is that of the current player. -/
theorem hands_of_moves (h : Going t n) {b : Board} {target : PileId} {card : Card}
    (hmoves : t.board.Moves b (handPile t.current) target card) {seat : Seat}
    (hseat : seat.index < n) (hne : seat ≠ t.current) : b.cardsAt (handPile seat) ≠ [] :=
  hmoves.ne_nil (fun heq => hne (handPile_injective heq)) (h.hands seat hseat)

/-- After a turn the game goes on with the next player, or it is over. -/
theorem Turn.keeps (h : Going t n) (hturn : Turn n t t') :
    Going t' n ∧ t'.current = next n t.current ∨ Over t' n := by
  cases hturn with
  | @draw card b hmoves =>
    have hgoing : Going { t with board := b } n := by
      refine ⟨h.withBoard hmoves.frame, ?_, fun seat hseat => ?_⟩
      · exact hmoves.ne_nil (discardPile_ne_drawPile n) h.discarded
      · exact hmoves.ne_nil (handPile_ne_drawPile hseat) (h.hands seat hseat)
    exact .inl ⟨hgoing.advanceTurn, hgoing.current_advanceTurn⟩
  | pass => exact .inl ⟨h.advanceTurn, h.current_advanceTurn⟩
  | play hplayed =>
    cases hplayed with
    | @on b hlays hhand =>
      obtain ⟨_, _, _, _, card, _, _, _, _, hmoves⟩ := hlays
      have hgoing : Going { t with board := b } n := by
        refine ⟨h.withBoard hmoves.frame, hmoves.target_ne_nil, fun seat hseat => ?_⟩
        by_cases hcurrent : seat = t.current
        · exact hcurrent ▸ hhand
        · exact hands_of_moves h hmoves hseat hcurrent
      exact .inl ⟨hgoing.advanceTurn, hgoing.current_advanceTurn⟩
    | @out b hlays hhand =>
      -- Only the hand that was played from has become empty.
      obtain ⟨_, _, _, _, card, _, _, _, _, hmoves⟩ := hlays
      have hmoved := h.withBoard hmoves.frame
      exact .inr ⟨hmoved.verdict?_win, hmoves.target_ne_nil, hhand,
        fun seat hseat hne => hands_of_moves h hmoves hseat hne⟩

/-! ## Sessions -/

/-- A session of the game that has started. -/
structure Underway (s : Session) (n : Nat) : Prop where
  inPlay : s.InPlay compiled n
  atLeast : 2 ≤ n
  atMost : n ≤ 5
  started : s.started = true
  state : Going s.table n ∨ Over s.table n

/-- The game can be played. -/
theorem wellFormed : compiled.WellFormed := by
  have h := compile_documents
  simp only [Game.compile, bind_ok] at h
  obtain ⟨rules, -, _, -, _, -, deck, -, board, -, hgame⟩ := h
  exact Game.wellFormed_of_ofDocuments hgame

variable {s : Session}

/-- The board has the piles that the layout gives it. -/
theorem frame_of_inPlay (h : s.InPlay compiled n) : s.table.board.clear = .ofLayout layout n :=
  h.frame

/-- No two cards of a pile have one number. -/
theorem distinct (h : s.InPlay compiled n) (id : PileId) :
    ((s.table.board.cardsAt id).map (·.id)).Nodup := by
  have hdeck : (deck.cards.map (·.id)).Nodup := by decide
  exact Multiset.nodup_of_le (Multiset.map_le_map (h.cardsAt_le id)) hdeck

/-! ## Offers -/

/-- To play a card. -/
def playOffer : Offer := ⟨⟨0⟩, 0, .controlled ⟨0⟩⟩

/-- To draw a card. -/
def drawOffer : Offer := ⟨⟨0⟩, 1, .action ⟨1⟩⟩

/-- To pass the turn. -/
def passOffer : Offer := ⟨⟨0⟩, 2, .action ⟨2⟩⟩

/-- An offer that is accepted is one of the three. -/
theorem entryOf_ok_iff (hs : s.game = compiled) (h : Playing s.table n) {offer : Offer}
    {entry : AllowedAction} :
    s.entryOf offer = .ok entry ↔ offer = playOffer ∧ entry = playEntry ∨
      offer = drawOffer ∧ entry = drawEntry ∨ offer = passOffer ∧ entry = passEntry := by
  rw [Session.entryOf_ok, h.position_eq, hs]
  constructor
  · rintro ⟨hphase, phase, hfound, hplace, haction⟩
    obtain ⟨id, index, performable⟩ := offer
    obtain rfl : ⟨0⟩ = id := Option.some.inj hphase
    obtain rfl : turn = phase := Except.ok.inj hfound
    obtain rfl : entry.action = performable := haction
    match index, hplace with
    | 0, hplace => cases hplace; exact .inl ⟨rfl, rfl⟩
    | 1, hplace => cases hplace; exact .inr (.inl ⟨rfl, rfl⟩)
    | 2, hplace => cases hplace; exact .inr (.inr ⟨rfl, rfl⟩)
  · rintro (⟨rfl, rfl⟩ | ⟨rfl, rfl⟩ | ⟨rfl, rfl⟩) <;> exact ⟨rfl, turn, rfl, rfl, rfl⟩

/-- What stands for an entry is carried out while the game goes on. -/
theorem perform_eq (h : Playing s.table n) {offer : Offer} {entry : AllowedAction}
    (hentry : s.entryOf offer = .ok entry) (values : List Value) :
    s.perform offer values = s.after (s.carryOut entry values) := by
  rw [Session.perform, hentry]
  simp only [h.isOver_eq, Bool.false_eq_true, if_false]

/-- What is on offer: to play a card, and to draw one or else to pass. -/
theorem allowedFor_eq (hs : s.game = compiled) (hstarted : s.started = true)
    (h : Playing s.table n) {seat : Seat} (hseat : seat.index < n) :
    s.allowedFor seat =
      (.ok [playOffer,
        if s.table.board.cardsAt (drawPile n) = [] then passOffer else drawOffer], s) := by
  obtain ⟨p, hp, -, hphase⟩ := h.exists_player hseat
  have hphaseOf : s.table.phaseOf? seat = some ⟨0⟩ := by
    rw [Table.phaseOf?, hp]
    exact hphase
  have hallowed : s.allowedFor seat = s.after (s.judge.permitted ⟨0⟩ 0 turn.allowed s.table) := by
    rw [Session.allowedFor, hstarted, h.isOver_eq, hphaseOf, hs]
    rfl
  have hpermitted : s.judge.permitted ⟨0⟩ 0 turn.allowed s.table =
      (.ok [playOffer,
        if s.table.board.cardsAt (drawPile n) = [] then passOffer else drawOffer], s.table) := by
    simp only [judge_eq hs, turn, playEntry, drawEntry, passEntry, Judge.permitted,
      Answer.andThen_ok, holds_drawEmpty h]
    cases s.table.board.cardsAt (drawPile n) <;> rfl
  rw [hallowed, hpermitted]
  rfl

/-- To pass is on offer once there is nothing to draw, but it is carried out at any time. -/
theorem perform_pass (hs : s.game = compiled) (h : Playing s.table n) (values : List Value) :
    s.perform passOffer values = (.ok true, { s with table := s.table.advanceTurn }) := by
  have hentry : s.entryOf passOffer = .ok passEntry :=
    (entryOf_ok_iff hs h).2 (.inr (.inr ⟨rfl, rfl⟩))
  rw [perform_eq h hentry, carryOut_pass hs h]
  rfl

/-- Drawing needs no values, and passing needs none. -/
theorem options_eq (hs : s.game = compiled) {offer : Offer}
    (hoffer : offer = drawOffer ∨ offer = passOffer) : s.options offer = .ok [] := by
  rw [Session.options, hs]
  rcases hoffer with rfl | rfl <;> rfl

/-- While the game goes on something is on offer that needs no values and takes effect. -/
theorem exists_offer (hs : s.InPlay compiled n) (hstarted : s.started = true)
    (h : Going s.table n) :
    ∃ offers, s.allowed = (.ok offers, s) ∧
      ∃ offer ∈ offers, s.options offer = .ok [] ∧ (s.perform offer []).1 = .ok true := by
  refine ⟨_, allowedFor_eq hs.game hstarted h.toPlaying h.current_lt, ?_⟩
  by_cases hdraw : s.table.board.cardsAt (drawPile n) = []
  · rw [if_pos hdraw]
    exact ⟨passOffer, .tail _ (.head _), options_eq hs.game (.inr rfl),
      congrArg Prod.fst (perform_pass hs.game h.toPlaying [])⟩
  · rw [if_neg hdraw]
    have hentry : s.entryOf drawOffer = .ok drawEntry :=
      (entryOf_ok_iff hs.game h.toPlaying).2 (.inr (.inl ⟨rfl, rfl⟩))
    refine ⟨drawOffer, .tail _ (.head _), options_eq hs.game (.inl rfl), ?_⟩
    obtain ⟨p, hp, hremoval⟩ := exists_draw h.frame h.atMost h.current_lt
    have hcards := Board.cardsAt_of_pile? hp
    obtain ⟨b, hb⟩ := Board.exists_transferTop hp hremoval (hcards ▸ distinct hs (drawPile n))
      (hcards ▸ hdraw) (handPile s.table.current)
    rw [perform_eq h.toPlaying hentry, carryOut_draw hs.game h.toPlaying, hb]
    rfl

/-! ## Requests -/

/-- An action takes a turn, or it changes nothing. -/
theorem perform_spec (h : Underway s n) (offer : Offer) (values : List Value) :
    (s.perform offer values).1 = .ok true ∧ Going s.table n ∧
        Turn n s.table (s.perform offer values).2.table ∨
      (s.perform offer values).1 ≠ .ok true ∧ (s.perform offer values).2 = s := by
  cases hentry : s.entryOf offer with
  | error e =>
    rw [Session.perform, hentry]
    exact .inr ⟨nofun, rfl⟩
  | ok entry =>
    rcases h.state with hgoing | hover
    · have hone : entry = playEntry ∨ entry = drawEntry ∨ entry = passEntry :=
        ((entryOf_ok_iff h.inPlay.game hgoing.toPlaying).1 hentry).imp And.right
          (Or.imp And.right And.right)
      rw [perform_eq hgoing.toPlaying hentry]
      rcases carryOut_spec h.inPlay.game hgoing hone values with ⟨hok, hturn⟩ | ⟨hnot, htable⟩
      · exact .inl ⟨hok, hgoing, hturn⟩
      · exact .inr ⟨hnot, by rw [Session.after, htable]⟩
    · have hperform : s.perform offer values = (.ok false, s) := by
        rw [Session.perform, hentry]
        exact if_pos hover.isOver_eq
      rw [hperform]
      exact .inr ⟨nofun, rfl⟩

/-- No action begins a game anew or ends the session. -/
theorem Underway.perform (h : Underway s n) (offer : Offer) (values : List Value) :
    Underway (s.perform offer values).2 n := by
  refine ⟨h.inPlay.perform wellFormed offer values, h.atLeast, h.atMost,
    (s.started_perform offer values).trans h.started, ?_⟩
  rcases perform_spec h offer values with ⟨-, hgoing, hturn⟩ | ⟨-, heq⟩
  · exact (hturn.keeps hgoing).imp_left And.left
  · rw [heq]
    exact h.state

/-- Asking what is allowed changes nothing. -/
theorem Underway.allowedFor (h : Underway s n) (seat : Seat) : (s.allowedFor seat).2 = s := by
  rcases h.state with hgoing | hover
  · by_cases hseat : seat.index < n
    · rw [allowedFor_eq h.inPlay.game h.started hgoing.toPlaying hseat]
    · have hnone : s.table.phaseOf? seat = none := by
        rw [Table.phaseOf?, Table.player?, List.getElem?_eq_none]
        · rfl
        · exact (Nat.le_of_eq h.inPlay.table.seated).trans (Nat.le_of_not_lt hseat)
      rw [Session.allowedFor, hnone]
      split <;> rfl
  · rw [Session.allowedFor, hover.isOver_eq, Bool.or_true]
    rfl

/-- Neither does asking a condition. -/
theorem Underway.checkCondition (h : Underway s n) (name : String) :
    (s.checkCondition name).2 = s := by
  have hasks : ∀ c ∈ graph.conditions, c.OnlyAsks := by decide
  have hgraph : s.judge.graph = graph := congrArg Game.graph h.inPlay.game
  unfold Session.checkCondition
  split
  · rfl
  next id hid =>
    rw [Session.after, s.judge.condition_table (.of_forall (hgraph ▸ hasks) id)]

end HouseRules.CrazyEights
