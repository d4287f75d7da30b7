import HouseRules.Proofs.CrazyEights.Table
import HouseRules.Proofs.Judge.Effect

/-!
# A turn of Crazy Eights

Each of the three entries of the allow block is executed here on an arbitrary table. Passing and
drawing end a turn, and so does a card that was played (`CrazyEights.Played`), unless it was the
last one of the hand, with which the game is won: this is what may become of a table in one turn
(`CrazyEights.Turn`). An action that does not take effect leaves the table as it was, whatever
values were supplied (`CrazyEights.carryOut_spec`).
-/

namespace HouseRules

open Answer (andThen)

/-! ## Carrying out -/

namespace Session

variable {s : Session} {entry : AllowedAction} {values : List Value} {t₁ t₂ t₃ : Table}

/-- An action that takes effect is followed by its responses and the settling of play. -/
theorem carryOut_of_effective
    (hrun : s.judge.run entry.action values s.table = (.ok true, t₁))
    (hrespond : s.judge.respond values entry.responses t₁ = (.ok (), t₂))
    (hsettle : s.judge.settle s.config.maxPhaseChain s.table.position t₂ = (.ok (), t₃)) :
    s.carryOut entry values = (.ok true, t₃) := by
  simp only [carryOut, hrun, hrespond, hsettle, Answer.andThen_ok, if_true]

/-- One that takes none is followed by its responses only. -/
theorem carryOut_of_ineffective
    (hrun : s.judge.run entry.action values s.table = (.ok false, t₁))
    (hrespond : s.judge.respond values entry.responses t₁ = (.ok (), t₂)) :
    s.carryOut entry values = (.ok false, t₂) := by
  simp only [carryOut, hrun, hrespond, Answer.andThen_ok, Bool.false_eq_true, if_false]

/-- An error is the end. -/
theorem carryOut_of_error {e : RuntimeError}
    (hrun : s.judge.run entry.action values s.table = (.error e, t₁)) :
    s.carryOut entry values = (.error e, t₁) := by
  simp only [carryOut, hrun, Answer.andThen_error]

end Session

namespace CrazyEights

open Operation (moved)

/-! ## Cards that match -/

/-- A card may be played on another: they agree in face or in suit, or it is an eight. -/
def Matches (c top : Card) : Prop := c.face = top.face ∨ c.group = top.group ∨ c.face = "8"

/-- Whether a card matches another is decided by their faces and groups. -/
instance (c top : Card) : Decidable (Matches c top) :=
  inferInstanceAs (Decidable (c.face = top.face ∨ c.group = top.group ∨ c.face = "8"))

/-- Eights rank above all other cards, which are of one rank. -/
theorem key_eq (c : Card) : compiled.ranking.key c = (if c.face = "8" then 1 else 0, 0) := by
  have hgroup : (c.group.map (Ranking.score [])).getD 0 = 0 := by cases c.group <;> rfl
  have hface : Ranking.score [("8", 1)] c.face = if c.face = "8" then 1 else 0 := by
    rw [Ranking.score, List.lookup_cons]
    by_cases h : c.face = "8"
    · rw [if_pos h, beq_iff_eq.2 h]
      rfl
    · rw [if_neg h, beq_false_of_ne h]
      rfl
  exact Prod.ext hface hgroup

/-- A card matches one if it has its face or its suit or outranks it. -/
theorem matches_iff (c top : Card) :
    Matches c top ↔
      (top.sameFace c || (top.sameGroup c || compiled.ranking.outranks c top)) = true := by
  have houtranks : compiled.ranking.outranks c top = true ↔ c.face = "8" ∧ top.face ≠ "8" := by
    rw [Ranking.outranks, Ranking.compare, key_eq, key_eq]
    by_cases hc : c.face = "8" <;> by_cases htop : top.face = "8" <;> simp [hc, htop] <;> decide
  simp only [Bool.or_eq_true, Card.sameFace, Card.sameGroup, beq_iff_eq, houtranks, Matches]
  constructor
  · rintro (hface | hgroup | height)
    · exact .inl hface.symm
    · exact .inr (.inl hgroup.symm)
    · by_cases htop : top.face = "8"
      · exact .inl (htop.trans height.symm)
      · exact .inr (.inr ⟨height, htop⟩)
  · rintro (hface | hgroup | height)
    · exact .inl hface.symm
    · exact .inr (.inl hgroup.symm)
    · exact .inr (.inr height.1)

variable {t : Table} {n m : Nat}

/-! ## Conditions -/

/-- The condition on the draw pile, negated or not, tells whether this pile is empty. -/
theorem holds_drawEmpty (h : Playing t n) (negated : Bool) :
    (judge m).holds ⟨⟨1⟩, negated⟩ [] t =
      (.ok ((t.board.cardsAt (drawPile n)).isEmpty != negated), t) :=
  Judge.holds_checkIfEmpty rfl h.select_draw []

/-- The condition on the hand tells whether the player whose turn it is has no card left. -/
theorem holds_handEmpty (h : Playing t n) (supplied : List Value) :
    (judge m).holds ⟨⟨2⟩, false⟩ supplied t =
      (.ok (t.board.cardsAt (handPile t.current)).isEmpty, t) :=
  (Judge.holds_checkIfEmpty rfl h.select_hand supplied).trans (by rw [Bool.bne_false])

/-- A supplied card may be played if it matches the topmost discarded one. -/
theorem holds_playable {top : Card} (htop : (Token.top discard).Stands t (.card top)) (c : Card)
    (rest : List Value) :
    (judge m).holds ⟨⟨0⟩, false⟩ (.card c :: rest) t = (.ok (decide (Matches c top)), t) := by
  have hface : (judge m).effect .sameFace [.top discard, .placeholder .card]
      (.card c :: rest) t = (.ok (top.sameFace c), t) := Judge.effect_like .face htop c rest
  have hgroup : (judge m).effect .sameGroup [.top discard, .placeholder .card]
      (.card c :: rest) t = (.ok (top.sameGroup c), t) := Judge.effect_like .group htop c rest
  have hrank : (judge m).effect .checkRank [.placeholder .card, .top discard]
      (.card c :: rest) t = (.ok (compiled.ranking.outranks c top), t) :=
    Judge.effect_checkRank htop c rest
  have hc : (judge m).graph.conditions[0]? = some playable := rfl
  obtain ⟨ask, hask⟩ := (judge m).condition_eq (t := t) hc (.card c :: rest)
  have hchain : Judge.chain ((judge m).statement ask playable.name (.card c :: rest))
      playable.statements t = (.ok (decide (Matches c top)), t) := by
    have hmatches : decide (Matches c top) =
        (top.sameFace c || (top.sameGroup c || compiled.ranking.outranks c top)) := by
      rw [Bool.eq_iff_iff, decide_eq_true_iff, matches_iff]
    rw [hmatches]
    simp only [playable, Judge.chain, Judge.chainFrom, Judge.statement, hface, hgroup, hrank,
      Answer.andThen_ok, Bool.bne_false, Option.getD_some]
    cases top.sameFace c <;> cases top.sameGroup c <;> rfl
  rw [Judge.holds, hask, hchain]
  simp only [Answer.andThen_ok, playable, Bool.bne_false]

/-- Where no card is supplied there is an error. -/
theorem holds_playable_error {top : Card} (htop : (Token.top discard).Stands t (.card top))
    {supplied : List Value} (hsupplied : ∀ c rest, supplied ≠ .card c :: rest) :
    ∃ e, (judge m).holds ⟨⟨0⟩, false⟩ supplied t = (.error e, t) := by
  obtain ⟨e, hface⟩ : ∃ e, (judge m).effect .sameFace [.top discard, .placeholder .card]
      supplied t = (.error e, t) := Judge.effect_like_error .face htop hsupplied
  have hc : (judge m).graph.conditions[0]? = some playable := rfl
  obtain ⟨ask, hask⟩ := (judge m).condition_eq (t := t) hc supplied
  refine ⟨e, ?_⟩
  rw [Judge.holds, hask]
  simp only [playable, Judge.chain, Judge.statement, hface, Answer.andThen_error]

/-! ## Actions -/

/-- Running `draw` moves one card from the draw pile to the hand of the current player, if there is
one. -/
theorem run_draw (h : Playing t n) (supplied : List Value) :
    (judge m).run (.action ⟨1⟩) supplied t =
      (.ok (moved t (t.board.transferTop (drawPile n) (handPile t.current))).1.tookEffect,
        (moved t (t.board.transferTop (drawPile n) (handPile t.current))).2) :=
  Judge.effect_putTop h.select_draw h.select_hand supplied

/-- Looking whether the game is won wins it if the hand is empty. -/
theorem run_checkWin (h : Playing t n) (supplied : List Value) :
    (judge m).run (.controlled ⟨1⟩) supplied t =
      if t.board.cardsAt (handPile t.current) = [] then
        (.ok true, win t)
      else (.ok false, t) := by
  have hrun : (judge m).run (.controlled ⟨1⟩) supplied t = _ :=
    Judge.run_controlled (a := declareWin) rfl rfl supplied t
  rw [hrun, holds_handEmpty h, Answer.andThen_ok]
  by_cases hempty : t.board.cardsAt (handPile t.current) = []
  · rw [if_pos hempty, if_pos (List.isEmpty_iff.2 hempty)]
    exact Judge.effect_playerWin (show (t.seatOf .current).index < t.count from h.sound.current) _
  · rw [if_neg hempty, if_neg (mt List.isEmpty_iff.1 hempty)]

/-- Playing a card moves the one of the supplied card's number, if the supplied card matches the top
of the discard pile. -/
theorem run_play (h : Playing t n) {top : Card} (htop : (Token.top discard).Stands t (.card top))
    (c : Card) (rest : List Value) :
    (judge m).run (.controlled ⟨0⟩) (.card c :: rest) t =
      if Matches c top then
        (.ok (moved t (t.board.transfer (handPile t.current) (discardPile n) [c.id])).1.tookEffect,
          (moved t (t.board.transfer (handPile t.current) (discardPile n) [c.id])).2)
      else (.ok false, t) := by
  have hrun : (judge m).run (.controlled ⟨0⟩) (.card c :: rest) t = _ :=
    Judge.run_controlled (a := playCard) rfl rfl _ t
  rw [hrun, holds_playable htop, Answer.andThen_ok]
  by_cases hmatch : Matches c top
  · rw [if_pos hmatch, if_pos (decide_eq_true hmatch)]
    exact Judge.effect_put h.select_hand h.select_discard c rest
  · rw [if_neg hmatch, if_neg (by simpa using hmatch)]

/-- Where no card is supplied first, running `play` fails and leaves the table as it is. -/
theorem run_play_error {top : Card} (htop : (Token.top discard).Stands t (.card top))
    {supplied : List Value} (hsupplied : ∀ c rest, supplied ≠ .card c :: rest) :
    ∃ e, (judge m).run (.controlled ⟨0⟩) supplied t = (.error e, t) := by
  obtain ⟨e, he⟩ := holds_playable_error (m := m) htop hsupplied
  have hrun : (judge m).run (.controlled ⟨0⟩) supplied t = _ :=
    Judge.run_controlled (a := playCard) rfl rfl supplied t
  exact ⟨e, by rw [hrun, he, Answer.andThen_error]⟩

/-- Looking whether the game is won, as a response. -/
theorem respond_checkWin (h : Playing t n) (values : List Value) :
    (judge m).respond values playEntry.responses t =
      (.ok (), if t.board.cardsAt (handPile t.current) = [] then win t else t) := by
  have hrespond : (judge m).respond values playEntry.responses t =
      andThen ((judge m).run (.controlled ⟨1⟩) values t) fun _ t => (.ok (), t) := rfl
  rw [hrespond, run_checkWin h]
  split <;> rfl

/-! ## Turns -/

/-- A game that goes on: there is a card to play on, and everybody has cards left. -/
structure Going (t : Table) (n : Nat) : Prop extends Playing t n where
  discarded : t.board.cardsAt (discardPile n) ≠ []
  hands : ∀ seat : Seat, seat.index < n → t.board.cardsAt (handPile seat) ≠ []

/-- There is a card on top of the discard pile, and it is the one to be matched. -/
theorem Going.exists_top (h : Going t n) :
    ∃ below top, t.board.cardsAt (discardPile n) = below ++ [top] ∧
      (Token.top discard).Stands t (.card top) := by
  obtain ⟨p, hp, hcards⟩ := Board.exists_pile?_of_cardsAt h.discarded
  have hne : p.cards ≠ [] := hcards.symm ▸ h.discarded
  refine ⟨p.cards.dropLast, p.cards.getLast hne, ?_, ?_⟩
  · rw [← hcards, List.dropLast_append_getLast]
  · exact .top h.select_discard hp (List.getLast?_eq_some_getLast hne)

/-- A supplied card was played: it matches the card on top of the discard pile, and the card of its
number has gone from the hand onto that pile. -/
def Lays (n : Nat) (t : Table) (values : List Value) (b : Board) : Prop :=
  ∃ c rest below top card, values = .card c :: rest ∧
    t.board.cardsAt (discardPile n) = below ++ [top] ∧ Matches c top ∧ card.id = c.id ∧
      t.board.Moves b (handPile t.current) (discardPile n) card

/-- A supplied card that matches was played if the move was not refused. -/
theorem lays_of_transfer (h : Playing t n) {c top : Card} {below : List Card} {b : Board}
    (hdiscard : t.board.cardsAt (discardPile n) = below ++ [top]) (hmatch : Matches c top)
    (hb : t.board.transfer (handPile t.current) (discardPile n) [c.id] = some b)
    (rest : List Value) : Lays n t (.card c :: rest) b := by
  obtain ⟨p, hp, hplacement⟩ := exists_discard h.frame h.atMost h.current_lt
  obtain ⟨card, hid, hmoves⟩ :=
    Board.moves_of_transfer (handPile_ne_discardPile h.current_lt) hp hplacement hb
  exact ⟨c, rest, below, top, card, rfl, hdiscard, hmatch, hid, hmoves⟩

/-- The turn of a player who plays a card: it is passed, or with no cards left the game is won. -/
inductive Played (n : Nat) (t : Table) (values : List Value) : Table → Prop
  | on {b : Board} (h : Lays n t values b) (hhand : b.cardsAt (handPile t.current) ≠ []) :
      Played n t values ({ t with board := b } : Table).advanceTurn
  | out {b : Board} (h : Lays n t values b) (hhand : b.cardsAt (handPile t.current) = []) :
      Played n t values (win { t with board := b })

/-- What a turn may come to. -/
inductive Turn (n : Nat) (t : Table) : Table → Prop
  | draw {card : Card} {b : Board}
      (hmoves : t.board.Moves b (drawPile n) (handPile t.current) card) :
      Turn n t ({ t with board := b } : Table).advanceTurn
  | pass : Turn n t t.advanceTurn
  | play {values : List Value} {t' : Table} (h : Played n t values t') : Turn n t t'

/-- An action took effect and brought something about, or it has changed nothing. -/
def AllOrNothing (t : Table) (p : Table → Prop) (r : Answer Bool) : Prop :=
  r.1 = .ok true ∧ p r.2 ∨ r.1 ≠ .ok true ∧ r.2 = t

/-! ## The entries of the phase -/

section Entries

variable {s : Session} (hs : s.game = compiled)

include hs

/-- What applies the components of a session of the game. -/
theorem judge_eq : s.judge = judge s.config.maxRepeat := by
  rw [Session.judge, hs]
  rfl

/-- Passing passes the turn once, though the phase ends with passing. -/
theorem carryOut_pass (h : Playing s.table n) (values : List Value) :
    s.carryOut passEntry values = (.ok true, s.table.advanceTurn) := by
  have hrun : s.judge.run passEntry.action values s.table = (.ok true, s.table.advanceTurn) :=
    judge_eq hs ▸ run_pass ..
  refine Session.carryOut_of_effective hrun rfl ?_
  rw [judge_eq hs]
  exact h.advanceTurn.settle_of_moved h.position_advanceTurn_ne _

/-- Drawing passes the turn if there is a card to draw. -/
theorem carryOut_draw (h : Playing s.table n) (values : List Value) :
    s.carryOut drawEntry values =
      match s.table.board.transferTop (drawPile n) (handPile s.table.current) with
      | some b => (.ok true, ({ s.table with board := b } : Table).advanceTurn)
      | none => (.ok false, s.table) := by
  have hrun : s.judge.run drawEntry.action values s.table = _ := judge_eq hs ▸ run_draw h values
  cases hb : s.table.board.transferTop (drawPile n) (handPile s.table.current) with
  | none =>
    rw [hb] at hrun
    exact Session.carryOut_of_ineffective hrun rfl
  | some b =>
    rw [hb] at hrun
    refine Session.carryOut_of_effective hrun rfl ?_
    rw [judge_eq hs]
    exact (h.withBoard (Board.clear_transferTop hb)).settle_of_stay _

/-- After a card was played the turn is passed, or the game is won. -/
theorem carryOut_laid (h : Going s.table n) {values : List Value} {b : Board}
    (hlays : Lays n s.table values b)
    (hrun : s.judge.run playEntry.action values s.table = (.ok true, { s.table with board := b })) :
    ∃ t', s.carryOut playEntry values = (.ok true, t') ∧ Played n s.table values t' := by
  obtain ⟨_, _, _, _, _, _, _, _, _, hmoves⟩ := id hlays
  have hmoved := h.withBoard hmoves.frame
  have hrespond : s.judge.respond values playEntry.responses { s.table with board := b } = _ :=
    judge_eq hs ▸ respond_checkWin hmoved values
  by_cases hhand : b.cardsAt (handPile s.table.current) = []
  · refine ⟨_, Session.carryOut_of_effective hrun (hrespond.trans (by rw [if_pos hhand])) ?_,
      .out hlays hhand⟩
    have hover : (win { s.table with board := b }).isOver = true := by
      rw [Table.isOver, hmoved.verdict?_win]
      rfl
    rw [Judge.settle, if_pos hover]
  · refine ⟨_, Session.carryOut_of_effective hrun (hrespond.trans (by rw [if_neg hhand])) ?_,
      .on hlays hhand⟩
    rw [judge_eq hs]
    exact hmoved.settle_of_stay _

/-- A card is played and the turn passed or the game won, or nothing happens. -/
theorem carryOut_play (h : Going s.table n) (values : List Value) :
    AllOrNothing s.table (Played n s.table values) (s.carryOut playEntry values) := by
  obtain ⟨below, top, hdiscard, htop⟩ := h.exists_top
  -- Anything but a card in the first place is an error, and then nothing is moved or looked at.
  by_cases hvalues : ∃ c rest, values = .card c :: rest
  · obtain ⟨c, rest, rfl⟩ := hvalues
    have hrun : s.judge.run playEntry.action (.card c :: rest) s.table = _ :=
      judge_eq hs ▸ run_play h.toPlaying htop c rest
    -- Looking whether the game is won does no harm, as the hand is not empty yet.
    have hnothing (hrun : s.judge.run playEntry.action (.card c :: rest) s.table =
        (.ok false, s.table)) :
        s.carryOut playEntry (.card c :: rest) = (.ok false, s.table) := by
      refine Session.carryOut_of_ineffective hrun ?_
      rw [judge_eq hs, respond_checkWin h.toPlaying, if_neg (h.hands _ h.current_lt)]
    by_cases hmatch : Matches c top
    · rw [if_pos hmatch] at hrun
      cases hb : s.table.board.transfer (handPile s.table.current) (discardPile n) [c.id] with
      | none =>
        rw [hb] at hrun
        rw [hnothing hrun]
        exact .inr ⟨nofun, rfl⟩
      | some b =>
        rw [hb] at hrun
        obtain ⟨t', hcarry, hplayed⟩ :=
          carryOut_laid hs h (lays_of_transfer h.toPlaying hdiscard hmatch hb rest) hrun
        rw [hcarry]
        exact .inl ⟨rfl, hplayed⟩
    · rw [if_neg hmatch] at hrun
      rw [hnothing hrun]
      exact .inr ⟨nofun, rfl⟩
  · have hnone : ∀ c rest, values ≠ .card c :: rest := fun c rest heq => hvalues ⟨c, rest, heq⟩
    obtain ⟨e, he⟩ := run_play_error (m := s.config.maxRepeat) htop hnone
    rw [Session.carryOut_of_error (show s.judge.run playEntry.action values s.table = _ from
      judge_eq hs ▸ he)]
    exact .inr ⟨nofun, rfl⟩

/-- A card that matches takes effect when a card of its number is in the hand. -/
theorem carryOut_play_of_matches (h : Going s.table n) {c card top : Card} {below : List Card}
    (hdiscard : s.table.board.cardsAt (discardPile n) = below ++ [top]) (hmatch : Matches c top)
    (hcard : card ∈ s.table.board.cardsAt (handPile s.table.current)) (hid : card.id = c.id)
    (rest : List Value) : (s.carryOut playEntry (.card c :: rest)).1 = .ok true := by
  obtain ⟨below', top', hdiscard', htop⟩ := h.exists_top
  obtain rfl : top = top' := (List.append_inj' (hdiscard.symm.trans hdiscard') rfl).2 |>
    List.cons.inj |>.1
  obtain ⟨p, hp, -, hremoval⟩ := exists_hand h.frame h.atMost h.current_lt
  have hcontains : p.contains c.id = true :=
    List.any_eq_true.2 ⟨card, Board.cardsAt_of_pile? hp ▸ hcard, beq_iff_eq.2 hid⟩
  have htake : p.canTake [c.id] = true := by
    simp [Pile.canTake, Pile.permitsTaking, hcontains, hremoval]
  obtain ⟨b, hb⟩ := Board.exists_transfer hp htake (discardPile n)
  have hrun : s.judge.run playEntry.action (.card c :: rest) s.table =
      (.ok true, { s.table with board := b }) := by
    rw [judge_eq hs]
    refine (run_play h.toPlaying htop c rest).trans ?_
    rw [if_pos hmatch, hb]
    rfl
  obtain ⟨t', hcarry, -⟩ :=
    carryOut_laid hs h (lays_of_transfer h.toPlaying hdiscard hmatch hb rest) hrun
  rw [hcarry]

/-- Whatever is carried out takes a turn, or nothing happens. -/
theorem carryOut_spec (h : Going s.table n) {entry : AllowedAction}
    (hentry : entry = playEntry ∨ entry = drawEntry ∨ entry = passEntry) (values : List Value) :
    AllOrNothing s.table (Turn n s.table) (s.carryOut entry values) := by
  rcases hentry with rfl | rfl | rfl
  · exact (carryOut_play hs h values).imp_left fun hplayed => ⟨hplayed.1, .play hplayed.2⟩
  · rw [carryOut_draw hs h.toPlaying]
    split
    next b hb =>
      obtain ⟨p, hp, hplacement, -⟩ := exists_hand h.frame h.atMost h.current_lt
      have hne := (handPile_ne_drawPile h.current_lt).symm
      obtain ⟨card, hmoves⟩ := Board.moves_of_transferTop hne hp hplacement hb
      exact .inl ⟨rfl, .draw hmoves⟩
    next => exact .inr ⟨nofun, rfl⟩
  · rw [carryOut_pass hs h.toPlaying]
    exact .inl ⟨rfl, .pass⟩

end Entries

end CrazyEights

end HouseRules
