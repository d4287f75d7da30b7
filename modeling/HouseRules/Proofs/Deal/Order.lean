import HouseRules.Proofs.Board.Moves
import HouseRules.Proofs.Deal.Cards

/-!
# Dealing the cards in a given order

The schedule of a deal does not depend on the order of the cards, so a dealer whose cards are
brought into another order deals that order by the same schedule (`Dealer.upcoming_withOrder`).
Dealing takes no card off a pile, so at the end each card lies on the pile it was dealt to
(`Board.mem_cardsAt_foldl_place`).
-/

namespace HouseRules

/-! ## Where the cards lie -/

namespace Board

variable {b : Board} {card : Card} {id : PileId}

/-- A card that is added to a pile lies on it where the policy of the pile puts it. -/
theorem cardsAt_modify_add (h : id.index < b.size) (card : Card) :
    ∃ p, b.pile? id = some p ∧ (b.modify id (·.add card)).cardsAt id = (p.add card).cards := by
  obtain ⟨p, hp⟩ := exists_pile? h
  refine ⟨p, hp, ?_⟩
  rw [cardsAt, pile?_modify, if_pos rfl, hp]
  rfl

/-- A card that lies on a pile stays there. -/
theorem mem_cardsAt_place (h : card ∈ b.cardsAt id) (x : DealTarget × Card) :
    card ∈ (b.place x).cardsAt id := by
  unfold place
  split
  next other hother =>
    by_cases heq : other = id
    · subst heq
      obtain ⟨p, hp, hcards⟩ := cardsAt_modify_add (find?_lt hother) x.2
      rw [hcards]
      exact Pile.mem_addAll (.inl (cardsAt_of_pile? hp ▸ h))
    · rw [cardsAt, pile?_modify, if_neg (PileId.index_ne heq)]
      exact h
  next => exact h

/-- A card that lies on a pile still does when others have been put on the board. -/
theorem mem_cardsAt_foldl (h : card ∈ b.cardsAt id) (xs : List (DealTarget × Card)) :
    card ∈ (xs.foldl place b).cardsAt id := by
  induction xs generalizing b with
  | nil => exact h
  | cons x xs ih => exact ih (mem_cardsAt_place h x)

/-- A card that was dealt lies on the pile of its target. -/
theorem mem_cardsAt_foldl_place {xs : List (DealTarget × Card)} {target : DealTarget}
    (hmem : (target, card) ∈ xs)
    (hid : b.find? target.slot (target.receiver.getD .first) = some id) :
    card ∈ (xs.foldl place b).cardsAt id := by
  induction xs generalizing b with
  | nil => cases hmem
  | cons x xs ih =>
    rw [List.foldl_cons]
    rcases List.mem_cons.1 hmem with rfl | hmem
    · refine mem_cardsAt_foldl ?_ xs
      obtain ⟨p, hp, hcards⟩ := cardsAt_modify_add (find?_lt hid) card
      simp only [place, hid, hcards]
      exact Pile.mem_addAll (.inr (List.mem_singleton_self card))
    · refine ih hmem ?_
      rw [find?_congr (clear_place b x), hid]

end Board

/-! ## Dealers who begin -/

namespace Dealer

variable {d : Dealer} {g : Game} {count : Nat}

/-- A dealer has shuffled the deck of a game and has the whole schedule before them. -/
structure Begins (d : Dealer) (g : Game) (count : Nat) : Prop where
  shuffled : d.stock.rest.Perm g.deck.cards
  upcoming : d.upcoming g.deck.size =
    (g.deal.schedule (g.deal.direction.order count) g.deck.size).zip d.stock.rest

/-- A dealer that is reset begins to deal to the table anew. -/
theorem begins_reset (hsome : 0 < count) (hdeck : d.stock.deck = g.deck) (hplan : d.plan = g.deal)
    (hseats : d.seats = g.deal.direction.order count) : d.reset.Begins g count := by
  have hne : d.seats ≠ [] := hseats ▸ g.deal.direction.order_ne_nil hsome
  have hupcoming := (d.reset_spec hne).2
  rw [hdeck, hplan, hseats] at hupcoming
  exact ⟨hdeck ▸ d.stock.rest_shuffle_perm d.plan.passes d.stream, hupcoming⟩

/-- A dealer for a game begins to deal to a table for its players. -/
theorem begins_fresh (g : Game) (hsome : 0 < count) (hnumbered : count ≤ 255)
    (stream : Chance.Stream) : (fresh g.deck g.deal count stream).Begins g count :=
  begins_reset hsome rfl rfl (g.deal.direction.walk_first hsome (Nat.le_succ_of_le hnumbered))

/-- Every pile of the schedule will get a card. -/
theorem Begins.exists_card (h : d.Begins g count) {target : DealTarget}
    (hmem : target ∈ g.deal.schedule (g.deal.direction.order count) g.deck.size) :
    ∃ card, (target, card) ∈ d.upcoming g.deck.size := by
  obtain ⟨i, hi, rfl⟩ := List.getElem_of_mem hmem
  have hlength : d.stock.rest.length = g.deck.size := h.shuffled.length_eq
  have hi' : i < d.stock.rest.length := by
    rw [hlength]
    exact Nat.lt_of_lt_of_le hi (g.deal.length_schedule_le ..)
  refine ⟨d.stock.rest[i], ?_⟩
  rw [h.upcoming]
  exact List.mem_iff_getElem.2 ⟨i, by rw [List.length_zip]; exact Nat.lt_min.2 ⟨hi, hi'⟩,
    List.getElem_zip⟩

/-! ## Another order -/

/-- The dealer with the cards that are left in another order. -/
def withOrder (d : Dealer) (order : List Card) : Dealer :=
  { d with stock := { d.stock with rest := order } }

variable {order : List Card} {cards : Nat}

/-- The cards of another order are dealt by the same schedule. -/
theorem upcoming_withOrder {schedule : List DealTarget} (hlength : order.length = d.remaining)
    (h : d.upcoming cards = schedule.zip d.stock.rest) :
    (d.withOrder order).upcoming cards = schedule.zip order := by
  have htake : ∀ xs : List DealTarget, (xs.zip d.stock.rest).map Prod.fst = xs.take order.length :=
    fun xs => by
      rw [← zip_take_length, ← show order.length = d.stock.rest.length from hlength,
        List.map_fst_zip]
      rw [List.length_take]
      exact (Nat.min_le_left ..).trans (Nat.le_of_eq hlength)
  have hfirst : (DealCursor.due d.plan d.seats cards d.cursor).take order.length =
      schedule.take order.length := by
    rw [← htake, ← htake, ← h]
    rfl
  have hupcoming : (d.withOrder order).upcoming cards =
      (DealCursor.due d.plan d.seats cards d.cursor).zip order := rfl
  rw [hupcoming, ← zip_take_length, hfirst, zip_take_length]

/-- A dealer begins just the same with the cards in another order. -/
theorem Begins.withOrder (h : d.Begins g count) (horder : order.Perm g.deck.cards) :
    (d.withOrder order).Begins g count :=
  ⟨horder, upcoming_withOrder (horder.trans h.shuffled.symm).length_eq h.upcoming⟩

/-- A dealer who is ready is ready to deal another order. -/
theorem ReadyFor.withOrder (h : d.ReadyFor g count) (hlength : order.length = d.remaining) :
    (d.withOrder order).ReadyFor g count := by
  refine ⟨h.deck, h.plan, h.seats, ?_, ?_⟩
  · have hremaining : (d.withOrder order).remaining = d.remaining := hlength
    rw [InStep, hremaining]
    exact h.inStep
  · intro x hx
    obtain ⟨i, hi, rfl⟩ := List.getElem_of_mem hx
    rw [upcoming, List.length_zip] at hi
    have hi' : i < (d.upcoming g.deck.size).length := by
      rw [upcoming, List.length_zip, ← show order.length = d.stock.rest.length from hlength]
      exact hi
    have hserved := h.served _ (List.getElem_mem hi')
    simp only [upcoming, List.getElem_zip] at hserved ⊢
    exact hserved

end Dealer

end HouseRules
