import HouseRules.Proofs.Deal.Order
import HouseRules.Proofs.Session.Log
import HouseRules.Proofs.Session.Placed

/-!
# A reset forgets the game

A reset puts back what is listed in it: it clears the board, takes everyone out of the game, gives
the turn to the first seat and the direction to the rules, and shuffles the deck anew. That this is
everything, so that nothing of a game is left in the next one, rests on what a reset does not put
back: what the piles are, who the players are and what they own (`Table.roster`), and what the
dealer deals from. None of it is ever changed, by no operation and in no error.

So a session that is reset is the one that was set up, but for the order of the cards and the two
streams (`Session.reset_forgets`). The schedule of the deal does not depend on these, so each pile
gets as many cards in the next deal as in that of any fresh session for as many players
(`Session.sizes_deal`).

Reference: `Engine.reset`, `CardDealer.reset` (specification 3, 4.4).
-/

namespace HouseRules

/-! ## Who is at the table -/

namespace Table

/-- The players as before the game: their names and the piles they own. -/
def roster (t : Table) : List Player := t.players.map Player.reset

variable {t t' : Table}

/-- The roster depends on the players alone. -/
theorem roster_congr (h : t'.players = t.players) : t'.roster = t.roster := by
  rw [roster, h, roster]

/-- A change that leaves a player the name and the piles leaves the roster. -/
theorem roster_modifyPlayer {seat : Seat} {change : Player → Player}
    (h : ∀ p, (change p).reset = p.reset) : (t.modifyPlayer seat change).roster = t.roster := by
  refine List.ext_getElem? fun i => ?_
  rw [roster, roster, modifyPlayer, List.getElem?_map, List.getElem?_map, List.getElem?_modify]
  cases t.players[i]? with
  | none => rfl
  | some p =>
    split
    · exact congrArg some (h p)
    · rfl

/-- A change to the players that resetting undoes leaves the roster as it was. -/
theorem roster_modifyPlayers {change : Player → Player} (h : ∀ p, (change p).reset = p.reset) :
    (t.modifyPlayers change).roster = t.roster := by
  rw [roster, modifyPlayers, List.map_map]
  exact List.map_congr_left fun p _ => h p

end Table

/-- No operation changes who is at the table. -/
theorem Operation.roster_run {t : Table} (ranking : Ranking) (op : Operation) :
    (op.run ranking t).2.roster = t.roster := by
  cases op with
  | endTurn =>
    obtain ⟨seat, turn, heq, -⟩ := t.advanceTurn_eq
    rw [run, heq]
    rfl
  | enterPhase | setStatus => exact Table.roster_modifyPlayer fun _ => rfl
  | shuffle piles => exact Table.roster_congr (shuffleAll_players t piles).1
  | transfer | transferTop | exchange | remove => exact Table.roster_congr (moved_players t _).1
  | _ => rfl

/-- Calls leave everyone at the table, in a phase of the game or none. -/
theorem Judge.preserves_roster (j : Judge) (roster : List Player) :
    j.Preserves fun t => t.InPhases j.graph.phases.length ∧ t.roster = roster where
  dispatch _ t outcome t' ht h := by
    obtain ⟨op, -, hrun⟩ := Operation.dispatch_ok.1 h
    have hroster := op.roster_run j.ranking (t := t)
    rw [hrun] at hroster
    exact ⟨Operation.inPhases_dispatch ht.1 h, hroster.trans ht.2⟩
  inPhases _ ht := ht.1

/-! ## How many cards lie where -/

/-- A card that is added makes a pile larger by one. -/
theorem Pile.size_add (p : Pile) (card : Card) : (p.add card).size = p.size + 1 := by
  unfold add addAll
  cases p.policy.placement <;> simp [size]

namespace Board

/-- The sizes of the piles. -/
def sizes (b : Board) : List Nat := b.piles.map (·.size)

/-- A card that is dealt makes one pile larger by one. -/
theorem sizes_place (b : Board) (x : DealTarget × Card) :
    (b.place x).sizes =
      match b.find? x.1.slot (x.1.receiver.getD .first) with
      | some id => b.sizes.modify id.index (· + 1)
      | none => b.sizes := by
  unfold place
  cases b.find? x.1.slot (x.1.receiver.getD .first) with
  | none => rfl
  | some id =>
    refine List.ext_getElem? fun i => ?_
    simp only [sizes, modify, List.getElem?_map, List.getElem?_modify]
    cases b.piles[i]? with
    | none => rfl
    | some p =>
      dsimp only [Option.map_some]
      split
      · exact congrArg some (p.size_add x.2)
      · rfl

/-- The piles that are dealt to decide the sizes; the cards do not matter. -/
theorem sizes_foldl_place {xs ys : List (DealTarget × Card)} {b b' : Board}
    (htargets : xs.map Prod.fst = ys.map Prod.fst) (hclear : b.clear = b'.clear)
    (hsizes : b.sizes = b'.sizes) : (xs.foldl place b).sizes = (ys.foldl place b').sizes := by
  induction xs generalizing ys b b' with
  | nil =>
    obtain rfl := List.map_eq_nil_iff.1 htargets.symm
    exact hsizes
  | cons x xs ih =>
    obtain ⟨y, ys, rfl, htarget, hrest⟩ := List.map_eq_cons_iff.1 htargets.symm
    -- Which pile gets the card is read off the frame, and dealing leaves the frame.
    rw [List.foldl_cons, List.foldl_cons]
    refine ih hrest.symm ?_ ?_
    · rw [clear_place, clear_place, hclear]
    · rw [sizes_place, sizes_place, htarget, find?_congr hclear, hsizes]

end Board

/-! ## Dealers -/

namespace Dealer

/-- The dealer is where the plan starts. -/
def AtStart (d : Dealer) : Prop :=
  d.cursor = (DealCursor.start d.plan).settle d.plan d.seats.length

/-- A dealer that is reset is where the plan starts. -/
theorem atStart_reset (d : Dealer) : d.reset.AtStart := rfl

/-- The whole schedule is dealt. -/
theorem Begins.map_fst_zip {d : Dealer} {g : Game} {count : Nat} (h : d.Begins g count) :
    ((g.deal.schedule (g.deal.direction.order count) g.deck.size).zip d.stock.rest).map Prod.fst =
      g.deal.schedule (g.deal.direction.order count) g.deck.size := by
  refine List.map_fst_zip ?_
  rw [h.shuffled.length_eq]
  exact g.deal.length_schedule_le ..

end Dealer

namespace Session

variable {s : Session} {g : Game} {count : Nat}

/-! ## What no inquiry changes -/

/-- Dealing leaves the roster as it was. -/
theorem roster_deal (s : Session) : s.deal.table.roster = s.table.roster :=
  Table.roster_modifyPlayers fun _ => rfl

/-- Resetting leaves the roster as it was. -/
theorem roster_reset (s : Session) : s.reset.table.roster = s.table.roster :=
  Table.roster_modifyPlayers fun _ => rfl

/-- Dealing anew leaves the roster as it was. -/
theorem roster_dealt (s : Session) : s.dealt.table.roster = s.table.roster := by
  rw [dealt, roster_deal]
  split
  · exact s.roster_reset
  · rfl

/-- Whatever a session is asked, the same players are at the table. -/
theorem InPlay.roster_reply (hg : g.WellFormed) (h : s.InPlay g count) {α : Type}
    (inquiry : Inquiry α) : (s.reply inquiry).2.table.roster = s.table.roster := by
  have hclosed := h.closed hg
  have hj := s.judge.preserves_roster s.table.roster
  have ht : s.table.InPhases s.judge.graph.phases.length ∧ s.table.roster = s.table.roster :=
    ⟨h.inPhases, rfl⟩
  cases inquiry with
  | start =>
    have hphases := (h.dealt hg).inPhases
    rw [judge_dealt] at hphases
    exact (start_keeps hclosed hj ⟨hphases, s.roster_dealt⟩).2
  | reset => exact s.roster_reset
  | allowed => exact (allowedFor_keeps hclosed hj ht _).2
  | allowedFor seat => exact (allowedFor_keeps hclosed hj ht seat).2
  | perform offer values => exact (perform_keeps hclosed hj ht offer values).2
  | checkCondition name => exact (checkCondition_keeps hclosed hj ht name).2
  | _ => rfl

/-- Whatever is asked of a session, the roster is as it was. -/
theorem InPlay.roster_askAll (hg : g.WellFormed) (h : s.InPlay g count)
    (asked : List (Σ α, Inquiry α)) : (s.askAll asked).table.roster = s.table.roster := by
  induction asked generalizing s with
  | nil => rfl
  | cons inquiry asked ih =>
    exact (ih (h.reply hg inquiry.2)).trans (h.roster_reply hg inquiry.2)

/-- Sessions of one game for the same number of players, about to deal, deal as many cards to each
pile. -/
theorem sizes_deal {s' : Session} (h : s.InPlay g count) (h' : s'.InPlay g count)
    (hdealer : s.dealer.Begins g count) (hdealer' : s'.dealer.Begins g count)
    (hsizes : s.table.board.sizes = s'.table.board.sizes) :
    s.deal.table.board.sizes = s'.deal.table.board.sizes := by
  rw [h.table_deal hdealer, h'.table_deal hdealer']
  refine Board.sizes_foldl_place ?_ (h.frame.trans h'.frame.symm) hsizes
  rw [hdealer.map_fst_zip, hdealer'.map_fst_zip]

/-! ## Sessions that nobody has played -/

/-- Nobody has played: there are no cards on the board, nobody is in a phase and nobody has won or
lost, the first player is about to take the first turn, and the dealer to deal the first card. -/
structure Unplayed (s : Session) (g : Game) (count : Nat) : Prop where
  board : s.table.board = .ofLayout g.layout count
  players : s.table.players = s.table.roster
  current : s.table.current = .first
  turn : s.table.turn = 1
  direction : s.table.direction = g.direction
  dealer : s.dealer.AtStart
  started : s.started = false

/-- Nobody has played a session that is created. -/
theorem unplayed_create {names : List String} {config : Config}
    (h : create g names config = .ok s) : s.Unplayed g names.length := by
  simp only [create, bind_ok, pure_ok] at h
  obtain ⟨-, -, rfl⟩ := h
  refine ⟨rfl, ?_, rfl, rfl, rfl, Dealer.atStart_reset _, rfl⟩
  rw [Table.roster, Table.fresh, List.map_map]
  rfl

/-- Nobody has played a session that is reset. -/
theorem InPlay.unplayed_reset (h : s.InPlay g count) : s.reset.Unplayed g count where
  board := by
    rw [← h.frame]
    rfl
  players := by
    rw [roster_reset]
    rfl
  current := rfl
  turn := rfl
  direction := congrArg Game.direction h.game
  dealer := s.dealer.atStart_reset
  started := rfl

/-- A start deals at once. -/
theorem Unplayed.dealt_eq (h : s.Unplayed g count) : s.dealt = s.deal := by
  rw [dealt, h.started, if_neg Bool.false_ne_true]

/-- Such sessions, set up alike for the same players, are the same but for the order of the cards
and the streams. -/
theorem Unplayed.eq {s' : Session} (h : s.Unplayed g count) (h' : s'.Unplayed g count)
    (hplay : s.InPlay g count) (hplay' : s'.InPlay g count) (hconfig : s.config = s'.config)
    (hroster : s.table.roster = s'.table.roster) :
    s = { s' with
      table := { s'.table with stream := s.table.stream }
      dealer := { s'.dealer with
        stock := { s'.dealer.stock with rest := s.dealer.stock.rest }
        stream := s.dealer.stream } } := by
  have hgame := hplay.game.trans hplay'.game.symm
  have hboard := h.board.trans h'.board.symm
  have hplayers := h.players.trans (hroster.trans h'.players.symm)
  have hcurrent := h.current.trans h'.current.symm
  have hturn := h.turn.trans h'.turn.symm
  have hdirection := h.direction.trans h'.direction.symm
  have hstarted := h.started.trans h'.started.symm
  have hdeck := hplay.dealer.deck.trans hplay'.dealer.deck.symm
  have hplan := hplay.dealer.plan.trans hplay'.dealer.plan.symm
  have hseats := hplay.dealer.seats.trans hplay'.dealer.seats.symm
  have hcursor : s.dealer.cursor = s'.dealer.cursor := by
    rw [h.dealer, h'.dealer, hplan, hseats]
  clear h h' hplay hplay' hroster
  obtain ⟨_, _, ⟨_, _, _, _, _, _⟩, ⟨⟨_, _⟩, _, _, _, _⟩, _⟩ := s
  obtain ⟨_, _, ⟨_, _, _, _, _, _⟩, ⟨⟨_, _⟩, _, _, _, _⟩, _⟩ := s'
  dsimp only at *
  subst hgame hconfig hboard hplayers hcurrent hturn hdirection hstarted hdeck hplan hseats hcursor
  rfl

/-- **A reset forgets the game.** Whatever a session has been asked, after a reset it is the session
that was set up, but for the two streams and for the order of the cards, which are those of the deck
and none of them dealt; and its guard is empty. So the next deal puts as many cards on each pile as
the first deal of any fresh session of the game for as many players. -/
theorem reset_forgets {rules deck board : Document} {brief : Option Document} {names : List String}
    {config : Config} {s₀ : Session} (hgame : Game.ofDocuments rules deck board brief = .ok g)
    (hs₀ : create g names config = .ok s₀) (asked : List (Σ α, Inquiry α)) :
    let s := s₀.askAll asked
    (∃ order stream stream', order.Perm s₀.dealer.stock.deck.cards ∧
      s.reset = { s₀ with
        table := { s₀.table with stream }
        dealer := { s₀.dealer with
          stock := { s₀.dealer.stock with rest := order }, stream := stream' } }) ∧
      (∃ log, s₀.askAllLogged asked .fresh = some (s, log) ∧
        ∃ log', s.replyLogged .reset log = some (((), s.reset), log') ∧
          log'.guard = Log.fresh.guard) ∧
      ∀ names' config' s₁, names'.length = names.length → create g names' config' = .ok s₁ →
        s.reset.dealt.table.board.sizes = s₁.dealt.table.board.sizes := by
  intro s
  have hg := Game.wellFormed_of_ofDocuments hgame
  have h₀ : s₀.InPlay g names.length := inPlay_create hg hs₀
  have h : s.InPlay g names.length := h₀.askAll hg asked
  refine ⟨?_, ?_, fun names' config' s₁ hlength hs₁ => ?_⟩
  · refine ⟨s.reset.dealer.stock.rest, s.reset.table.stream, s.reset.dealer.stream, ?_, ?_⟩
    · rw [h₀.dealer.deck]
      exact h.begins_reset.shuffled
    · exact h.unplayed_reset.eq (unplayed_create hs₀) (h.reset hg) h₀ (s₀.setup_askAll asked).2
        (s.roster_reset.trans (h₀.roster_askAll hg asked))
  · obtain ⟨begun, hasked, -⟩ := askAllLogged_eq (not_cyclic_of_create hgame hs₀) asked []
    exact ⟨_, hasked, _, rfl, rfl⟩
  · have hfresh : s₁.Unplayed g names.length := hlength ▸ unplayed_create hs₁
    have h₁ : s₁.InPlay g names.length := hlength ▸ inPlay_create hg hs₁
    have hdealer : s₁.dealer.Begins g names.length := hlength ▸ begins_create hg hs₁
    rw [h.unplayed_reset.dealt_eq, hfresh.dealt_eq]
    refine sizes_deal (h.reset hg) h₁ h.begins_reset hdealer ?_
    rw [h.unplayed_reset.board, hfresh.board]

/-- Two players who draw begin, one of them draws a card and asks for something that is not on
offer, and the game is reset: they are as they were before the start, and the cards will be dealt to
the same piles. -/
theorem drawing_reset_forgets :
    ∃ g s₀, Game.ofDocuments Graph.drawingRules drawingDeck Graph.drawingBoard none = .ok g ∧
      create g ["ann", "bob"] { seed := 1 } = .ok s₀ ∧
      let s := s₀.askAll [⟨_, .start⟩, ⟨_, .perform ⟨⟨0⟩, 0, .action ⟨0⟩⟩ []⟩,
        ⟨_, .perform ⟨⟨7⟩, 9, .action ⟨8⟩⟩ [.pile ⟨99⟩]⟩]
      s.started = true ∧ s.reset.started = false ∧ s.reset.table.players = s₀.table.players ∧
        s.reset.dealt.table.board.sizes = s₀.dealt.table.board.sizes := by
  have hok : drawing.isOk = true := by decide +kernel
  obtain ⟨⟨g, s₀⟩, h⟩ := Succeeds.of_isOk hok
  simp only [drawing, bind_ok, pure_ok] at h
  obtain ⟨_, hgame, _, hs₀, heq⟩ := h
  cases heq
  obtain ⟨⟨order, stream, stream', -, hreset⟩, -, hsizes⟩ := reset_forgets hgame hs₀
    [⟨_, .start⟩, ⟨_, .perform ⟨⟨0⟩, 0, .action ⟨0⟩⟩ []⟩,
      ⟨_, .perform ⟨⟨7⟩, 9, .action ⟨8⟩⟩ [.pile ⟨99⟩]⟩]
  refine ⟨g, s₀, hgame, hs₀, ?_, rfl, by rw [hreset], hsizes _ _ s₀ rfl hs₀⟩
  exact (started_perform ..).trans ((started_perform ..).trans rfl)

end Session

end HouseRules
