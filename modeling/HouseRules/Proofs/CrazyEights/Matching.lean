import HouseRules.Proofs.CrazyEights.Progress

/-!
# Which cards Crazy Eights accepts

A card is played by supplying it. The condition of the play compares the supplied card, and the move
takes the card of its number from the hand. So what matches the card on top of the discard pile is
what the caller says of the card (`CrazyEights.plays_matching`); it is what the card says where the
caller supplies a card of the deck, and need not be where they do not (`CrazyEights.forged_play`).

Reference: the controlled action `play` of the bundled rules, and the brief (specification E5).
-/

namespace HouseRules.CrazyEights

variable {s s' : Session} {n : Nat}

/-- A card has gone from the hand of the player whose turn it was onto the discard pile, and a card
of its number that was supplied matches the one below it. -/
structure Plays (s s' : Session) (supplied card top : Card) : Prop where
  number : card.id = supplied.id
  hand : ∃ left right, s.cards? "hand" s.table.current = some (left ++ card :: right) ∧
    s'.cards? "hand" s.table.current = some (left ++ right)
  discard : ∃ below, s.cards? "discard" .first = some (below ++ [top]) ∧
    s'.cards? "discard" .first = some (below ++ [top, card])
  follows : supplied.face = top.face ∨ supplied.group = top.group ∨ supplied.face = "8"

/-! ## Playing -/

/-- The board after a card was played. -/
theorem Played.lays {t t' : Table} {values : List Value} (h : Playing t n)
    (hplayed : Played n t values t') : Lays n t values t'.board := by
  cases hplayed with
  | on hlays _ =>
    obtain ⟨_, _, _, _, _, _, _, _, _, hmoves⟩ := id hlays
    rw [(h.withBoard hmoves.frame).board_advanceTurn]
    exact hlays
  | out hlays _ => exact hlays

/-- What is called `play` plays a card. -/
theorem played_of_perform (h : Underway s n) {offer : Offer} {values : List Value}
    (hname : s.actionName offer = .ok "play") (hok : s.perform offer values = (.ok true, s')) :
    Playing s.table n ∧ Played n s.table values s'.table := by
  have hspec := perform_spec h offer values
  rw [hok] at hspec
  obtain ⟨-, hgoing, -⟩ | ⟨hnot, -⟩ := hspec
  · refine ⟨hgoing.toPlaying, ?_⟩
    cases hentry : s.entryOf offer with
    | error e =>
      rw [Session.perform, hentry] at hok
      cases hok
    | ok entry =>
      rw [Session.actionName, h.inPlay.game] at hname
      rcases (entryOf_ok_iff h.inPlay.game hgoing.toPlaying).1 hentry with
        ⟨rfl, rfl⟩ | ⟨rfl, rfl⟩ | ⟨rfl, rfl⟩
      · rw [perform_eq hgoing.toPlaying hentry] at hok
        have htable : (s.carryOut playEntry values).2 = s'.table := congrArg (·.2.table) hok
        rcases carryOut_play h.inPlay.game hgoing values with ⟨-, hplayed⟩ | ⟨hnot, -⟩
        · exact htable ▸ hplayed
        · exact absurd (congrArg Prod.fst hok) hnot
      · exact absurd hname (by decide)
      · exact absurd hname (by decide)
  · exact absurd rfl hnot

/-- Cards of the deck that have one number are one card. -/
theorem eq_of_mem_deck {c card : Card} (hc : c ∈ deck.cards) (hcard : card ∈ deck.cards)
    (hid : card.id = c.id) : card = c := by
  have hdeck : (deck.cards.map (·.id)).Nodup := by decide
  exact List.inj_on_of_nodup_map hdeck hcard hc hid

/-- Whoever performs `play` with effect plays the card supplied first, and if that is a card of the
deck, the pile gets this very card. -/
theorem plays_of_perform (h : Underway s n) {offer : Offer} {values : List Value}
    (hname : s.actionName offer = .ok "play") (hok : s.perform offer values = (.ok true, s')) :
    ∃ c rest card top, values = .card c :: rest ∧ Plays s s' c card top ∧
      (c ∈ deck.cards → card = c) := by
  obtain ⟨hplaying, hplayed⟩ := played_of_perform h hname hok
  obtain ⟨c, rest, below, top, card, rfl, hdiscard, hmatch, hid, hmoves⟩ := hplayed.lays hplaying
  obtain ⟨left, right, hbefore, hafter⟩ := hmoves.taken
  have h' : Underway s' n := by
    have := h.perform offer (.card c :: rest)
    rwa [hok] at this
  refine ⟨c, rest, card, top, rfl, ⟨hid, ⟨left, right, ?_, ?_⟩, ⟨below, ?_, ?_⟩, hmatch⟩, ?_⟩
  · rw [h.cards?_hand hplaying.current_lt, hbefore]
  · rw [h'.cards?_hand hplaying.current_lt, hafter]
  · rw [h.cards?_discard, hdiscard]
  · rw [h'.cards?_discard, hmoves.put, hdiscard, List.append_assoc]
    rfl
  · intro hc
    -- No card on the board is made up, so the number tells which one was moved.
    refine eq_of_mem_deck hc ?_ hid
    have hle : s.table.board.bag ≤ (deck.cards : Multiset Card) :=
      (Multiset.le_add_right ..).trans_eq h.inPlay.cards
    have hmem : card ∈ s.table.board.cardsAt (handPile s.table.current) := by
      rw [hbefore]
      exact List.mem_append_right _ List.mem_cons_self
    exact Multiset.mem_of_le hle ((s.table.board.cardsAt_sublist _).subset hmem)

/-- Whatever has been asked before, a play that is accepted moves one card from the hand of the
player whose turn it is onto the discard pile: the one of the number of the first value, which is a
card that matches the one below. If that value is a card of the deck, it is the card that was
moved. -/
theorem plays_matching (names : List String) (hleast : 2 ≤ names.length) (hmost : names.length ≤ 5)
    (config : Config) :
    ∃ g s, game = .ok g ∧ Session.create g names config = .ok s ∧
      s.dealer.stock.rest.Perm g.deck.cards ∧
      ∀ order : List Card, order.Perm g.deck.cards →
        ∀ requests : List Session.Request, .reset ∉ requests →
          ∀ offer values s₂,
            (s.course order requests).actionName offer = .ok "play" →
            (s.course order requests).perform offer values = (.ok true, s₂) →
            ∃ c rest card top, values = .card c :: rest ∧
              Plays (s.course order requests) s₂ c card top ∧ (c ∈ g.deck.cards → card = c) := by
  obtain ⟨s, hs, hfresh, hstart⟩ := exists_create hleast hmost config
  refine ⟨compiled, s, game_eq, hs, hfresh.dealer.shuffled, ?_⟩
  intro order horder requests hrequests
  obtain ⟨hdeal, hunderway⟩ := hstart order horder
  rw [Session.course, hdeal]
  exact fun offer values s₂ hname hok =>
    plays_of_perform (hunderway.answerAll hrequests) hname hok

/-! ## A card that is not of the deck -/

/-- The board for two players with the cards in the order of the catalog. -/
def dealt : Board := ((schedule 2).zip deck.cards).foldl Board.place (.ofLayout layout 2)

/-- In the game that is dealt, the three of clubs is the only card of the discard pile. -/
theorem dealt_discard : dealt.cardsAt (discardPile 2) = [⟨10, "3", some "clubs"⟩] := by
  decide +kernel

/-- In the game that is dealt, the hand of the first player. -/
theorem dealt_hand : dealt.cardsAt (handPile .first) =
    [⟨0, "a", some "hearts"⟩, ⟨2, "a", some "clubs"⟩, ⟨4, "2", some "hearts"⟩,
      ⟨6, "2", some "clubs"⟩, ⟨8, "3", some "hearts"⟩] := by
  decide +kernel

/-- Two players may come to that board, with the first one to begin. -/
theorem exists_dealt :
    ∃ s, Session.create compiled ["ann", "bob"] { seed := 1 } = .ok s ∧
      Underway (s.course deck.cards []) 2 ∧ Going (s.course deck.cards []).table 2 ∧
      (s.course deck.cards []).table.board = dealt ∧
      (s.course deck.cards []).table.current = .first := by
  obtain ⟨s, hs, hfresh, hstart⟩ :=
    exists_create (show 2 ≤ ["ann", "bob"].length by decide) (by decide) { seed := 1 }
  have hempty : s.table.board = .ofLayout layout 2 ∧ s.table.current = .first := by
    simp only [Session.create, bind_ok, pure_ok] at hs
    obtain ⟨_, -, rfl⟩ := hs
    exact ⟨rfl, rfl⟩
  obtain ⟨hdeal, hunderway⟩ := hstart deck.cards (.refl _)
  have hordered := hfresh.withOrder (.refl deck.cards)
  have hcourse : s.course deck.cards [] = (s.withOrder deck.cards).deal := by
    rw [Session.course, hdeal]
    rfl
  refine ⟨s, hs, hcourse ▸ hunderway, hcourse ▸ hordered.going_deal, ?_, ?_⟩
  · rw [hcourse, hordered.board_deal, dealt, ← hempty.1]
    rfl
  · rw [hcourse, hordered.current_deal]
    exact hempty.2

/-- The first player has the ace of hearts, which does not match the three of clubs on the discard
pile, and plays it by calling it a three of clubs. -/
theorem forged_play :
    ∃ g s s', game = .ok g ∧ Session.create g ["ann", "bob"] { seed := 1 } = .ok s ∧
      (s.course g.deck.cards []).actionName playOffer = .ok "play" ∧
      (s.course g.deck.cards []).perform playOffer [.card ⟨0, "3", some "clubs"⟩] =
        (.ok true, s') ∧
      ∃ card top, Plays (s.course g.deck.cards []) s' ⟨0, "3", some "clubs"⟩ card top ∧
        ¬ Matches card top := by
  obtain ⟨g, s, hgame, hs, -, hall⟩ :=
    plays_matching ["ann", "bob"] (by decide) (by decide) { seed := 1 }
  obtain rfl : compiled = g := Except.ok.inj (game_eq.symm.trans hgame)
  obtain ⟨s', hs', hunderway, hgoing, hboard, hcurrent⟩ := exists_dealt
  obtain rfl : s' = s := Except.ok.inj (hs'.symm.trans hs)
  have hdiscard : (s'.course deck.cards []).table.board.cardsAt (discardPile 2) =
      [] ++ [⟨10, "3", some "clubs"⟩] := hboard ▸ dealt_discard
  have hhand : (s'.course deck.cards []).table.board.cardsAt
      (handPile (s'.course deck.cards []).table.current) = _ := hboard ▸ hcurrent ▸ dealt_hand
  have hname : (s'.course deck.cards []).actionName playOffer = .ok "play" := by
    rw [Session.actionName, hunderway.inPlay.game]
    rfl
  have hace : ⟨0, "a", some "hearts"⟩ ∈ (s'.course deck.cards []).table.board.cardsAt
      (handPile (s'.course deck.cards []).table.current) := hhand ▸ List.mem_cons_self
  have hok : ((s'.course deck.cards []).perform playOffer [.card ⟨0, "3", some "clubs"⟩]).1 =
      .ok true := by
    have hentry := (entryOf_ok_iff hunderway.inPlay.game hgoing.toPlaying).2 (.inl ⟨rfl, rfl⟩)
    have hmatch : Matches ⟨0, "3", some "clubs"⟩ ⟨10, "3", some "clubs"⟩ := .inl rfl
    rw [perform_eq hgoing.toPlaying hentry]
    exact carryOut_play_of_matches hunderway.inPlay.game hgoing hdiscard hmatch hace rfl []
  obtain ⟨c, rest, card, top, hvalues, hplays, -⟩ :=
    hall deck.cards (.refl _) [] List.not_mem_nil playOffer _ _ hname (Prod.ext hok rfl)
  obtain ⟨rfl, rfl⟩ : ⟨0, "3", some "clubs"⟩ = c ∧ [] = rest := by simpa using hvalues
  refine ⟨compiled, s', _, hgame, hs, hname, Prod.ext hok rfl, card, top, hplays, ?_⟩
  obtain ⟨left, right, hleft, -⟩ := hplays.hand
  obtain ⟨below, hbelow, -⟩ := hplays.discard
  rw [hunderway.cards?_hand hgoing.current_lt, hhand] at hleft
  rw [hunderway.cards?_discard, hdiscard] at hbelow
  have hcard : card = ⟨0, "a", some "hearts"⟩ := by
    have honly : ∀ c ∈ dealt.cardsAt (handPile .first), c.id = 0 → c = ⟨0, "a", some "hearts"⟩ := by
      rw [dealt_hand]
      decide
    have hmem : card ∈ left ++ card :: right := List.mem_append_right _ List.mem_cons_self
    rw [← Option.some.inj hleft, ← dealt_hand] at hmem
    exact honly card hmem hplays.number
  have htop : top = ⟨10, "3", some "clubs"⟩ :=
    (List.singleton_inj.1 (List.append_inj' (Option.some.inj hbelow) rfl).2).symm
  rw [hcard, htop]
  decide

end HouseRules.CrazyEights
