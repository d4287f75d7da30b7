import HouseRules.Proofs.Deal.Run
import HouseRules.Proofs.Strict.Pile
import HouseRules.Proofs.Strict.Table

/-!
# Dealing read strictly

What is left of a deck is a list of cards, from which cards are taken at the front. A deck on the
table keeps another account: the places of the catalog in dealing order, and how far dealing is
in them (`Shoe`). A card is taken by the place that comes next, and how many are left is a
difference.

Shuffling brings the places into an order that is the same whatever the cards are
(`Chance.shuffleTimes_map`), so both accounts agree card by card. As long as the order has every
place of the catalog once and dealing has come no further than its end (`Shoe.Sound`), every card
that is taken is there, and that stays so.

`Croupier` is a dealer who deals from a shoe.
-/

namespace HouseRules

open Chance (Stream)

/-! ## Shuffling places -/

namespace Chance

variable {α β : Type}

/-- Exchanging two places does not depend on what stands at them. -/
theorem map_swapIfInBounds (f : α → β) (xs : Array α) (i j : Nat) :
    (xs.map f).swapIfInBounds i j = (xs.swapIfInBounds i j).map f := by
  unfold Array.swapIfInBounds
  simp only [Array.size_map]
  split
  · split
    · simp [Array.swap_def]
    · rfl
  · rfl

/-- Shuffling down from a place does not depend on what is shuffled. -/
theorem shuffleFrom_map (f : α → β) (i : Nat) (xs : Array α) (s : Stream) :
    shuffleFrom i (xs.map f) s = ((shuffleFrom i xs s).1.map f, (shuffleFrom i xs s).2) := by
  induction i generalizing xs s with
  | zero => rfl
  | succ i ih =>
    simp only [shuffleFrom, map_swapIfInBounds]
    exact ih _ _

/-- Which places are exchanged does not depend on what is there. -/
theorem shuffle_map (f : α → β) (xs : List α) (s : Stream) :
    shuffle (xs.map f) s = ((shuffle xs s).1.map f, (shuffle xs s).2) := by
  simp only [shuffle, List.length_map, ← List.map_toArray, shuffleFrom_map, Array.toList_map]

/-- Shuffling a number of times does not depend on what is shuffled. -/
theorem shuffleTimes_map (f : α → β) (passes : Nat) (xs : List α) (s : Stream) :
    shuffleTimes passes (xs.map f) s =
      ((shuffleTimes passes xs s).1.map f, (shuffleTimes passes xs s).2) := by
  induction passes generalizing xs s with
  | zero => rfl
  | succ passes ih =>
    simp only [shuffleTimes, shuffle_map]
    exact ih _ _

end Chance

/-! ## Shoes -/

/-- A deck on the table: the places of the catalog in dealing order, and how many of them have been
dealt. -/
structure Shoe where
  deck : Deck
  order : List Nat
  cursor : Nat

namespace Shoe

/-- The whole deck, in the order of the catalog. -/
def ofDeck (d : Deck) : Shoe := ⟨d, List.range d.size, 0⟩

/-- What is left to deal. -/
def stock (s : Shoe) : Stock := ⟨s.deck, (s.order.drop s.cursor).filterMap (s.deck.cards[·]?)⟩

/-- The number of cards left. -/
def remainingStrict (s : Shoe) : Option Nat := s.order.length.psub s.cursor

/-- Takes the next card, if one is left, by its place in the catalog. -/
def dealStrict (s : Shoe) : Option (Option Card × Shoe) :=
  match s.order[s.cursor]? with
  | none => some (none, s)
  | some place => do
    let card ← s.deck.cards[place]?
    return (some card, { s with cursor := s.cursor + 1 })

/-- Gathers the whole deck and shuffles it a number of times. -/
def shuffle (s : Shoe) (passes : Nat) (stream : Stream) : Shoe × Stream :=
  let (order, stream) := Chance.shuffleTimes passes (List.range s.deck.size) stream
  ({ s with order, cursor := 0 }, stream)

/-- Every place of the catalog comes once, and dealing has come no further than to the end. -/
structure Sound (s : Shoe) : Prop where
  order : s.order.Perm (List.range s.deck.size)
  cursor : s.cursor ≤ s.order.length

variable {s : Shoe}

/-- Dealing has come no further than to the end of the catalog. -/
theorem Sound.cursor_le (h : s.Sound) : s.cursor ≤ s.deck.size :=
  h.order.length_eq.trans List.length_range ▸ h.cursor

/-- Every place in dealing order is a place of the catalog. -/
theorem Sound.exists_card (h : s.Sound) {place : Nat} (hplace : place ∈ s.order) :
    ∃ card, s.deck.cards[place]? = some card :=
  ⟨_, List.getElem?_eq_getElem (List.mem_range.1 (h.order.mem_iff.1 hplace))⟩

/-- A shoe that is shuffled is sound. -/
theorem sound_shuffle (s : Shoe) (passes : Nat) (stream : Stream) :
    (s.shuffle passes stream).1.Sound :=
  ⟨Chance.shuffleTimes_perm .., Nat.zero_le _⟩

/-- The places in the order of the catalog are those of its cards. -/
theorem range_map_getElem? (cards : List Card) :
    (List.range cards.length).map (cards[·]?) = cards.map some := by
  refine List.ext_getElem (by simp) fun i hi _ => ?_
  rw [List.length_map, List.length_range] at hi
  simp [hi]

/-- The cards at some places are what is found there. -/
theorem filterMap_places {cards rest : List Card} {places : List Nat}
    (h : places.map (cards[·]?) = rest.map some) : places.filterMap (cards[·]?) = rest :=
  calc places.filterMap (cards[·]?) = (places.map (cards[·]?)).filterMap id :=
        (List.filterMap_map (g := id)).symm
    _ = (rest.map some).filterMap id := by rw [h]
    _ = rest := by rw [List.filterMap_map, Function.id_comp, List.filterMap_some]

@[simp] theorem stock_ofDeck (d : Deck) : (ofDeck d).stock = .ofDeck d :=
  congrArg (Stock.mk d) (filterMap_places (range_map_getElem? d.cards))

/-- The places come in the order in which the cards themselves would. -/
theorem stock_shuffle (s : Shoe) (passes : Nat) (stream : Stream) :
    ((s.shuffle passes stream).1.stock, (s.shuffle passes stream).2) =
      s.stock.shuffle passes stream := by
  have hmap := Chance.shuffleTimes_map (s.deck.cards[·]?) passes (List.range s.deck.size) stream
  rw [Deck.size, range_map_getElem?, Chance.shuffleTimes_map, Prod.mk.injEq] at hmap
  obtain ⟨hcards, hstream⟩ := hmap
  exact Prod.ext (congrArg (Stock.mk s.deck) (filterMap_places hcards.symm)) hstream.symm

/-- How many cards are left is never a difference below zero. -/
theorem remainingStrict_eq (h : s.Sound) : s.remainingStrict = some s.stock.remaining := by
  have hlength : s.stock.remaining = (s.order.drop s.cursor).length :=
    List.filterMap_length_eq_length.2 fun place hplace =>
      Option.isSome_iff_exists.2 (h.exists_card (List.mem_of_mem_drop hplace))
  rw [remainingStrict, Nat.psub_eq_sub h.cursor, hlength, List.length_drop]

/-- The next card is there, and it is the first of those left. -/
theorem dealStrict_eq (h : s.Sound) :
    ∃ s' : Shoe, s.dealStrict = some (s.stock.deal.1, s') ∧ s'.stock = s.stock.deal.2 ∧
      s'.Sound := by
  unfold dealStrict
  rcases Nat.lt_or_ge s.cursor s.order.length with hlt | hge
  · obtain ⟨card, hcard⟩ := h.exists_card (List.getElem_mem hlt)
    have hrest : s.stock.rest =
        card :: (s.order.drop (s.cursor + 1)).filterMap (s.deck.cards[·]?) := by
      rw [stock, List.drop_eq_getElem_cons hlt, List.filterMap_cons_some hcard]
    refine ⟨{ s with cursor := s.cursor + 1 }, ?_, ?_, ⟨h.order, hlt⟩⟩
    · rw [List.getElem?_eq_getElem hlt, Stock.deal, hrest]
      simp only [hcard, Option.bind_eq_bind, Option.bind_some]
      rfl
    · rw [Stock.deal, hrest]
      rfl
  · have hrest : s.stock.rest = [] := by
      rw [stock, List.drop_eq_nil_of_le hge, List.filterMap_nil]
    refine ⟨s, ?_, ?_, h⟩
    · rw [List.getElem?_eq_none hge, Stock.deal, hrest]
    · rw [Stock.deal, hrest]

end Shoe

/-! ## Dealing from a shoe -/

/-- A dealer who deals from a shoe. -/
structure Croupier where
  shoe : Shoe
  plan : DealPlan
  /-- The seats in dealing order. -/
  seats : List Seat
  stream : Stream
  cursor : DealCursor

namespace Croupier

/-- The dealer, with what is left of the deck in place of the shoe. -/
def dealer (c : Croupier) : Dealer := ⟨c.shoe.stock, c.plan, c.seats, c.stream, c.cursor⟩

/-- As `Dealer.settle`. -/
def settle (c : Croupier) : Croupier := { c with cursor := c.dealer.settle.cursor }

/-- As `Dealer.advance`. -/
def advance (c : Croupier) : Croupier := { c with cursor := c.dealer.advance.cursor }

/-- As `Dealer.stop`. -/
def stop (c : Croupier) : Croupier := { c with cursor := c.dealer.stop.cursor }

/-- As `Dealer.reset`. -/
def reset (c : Croupier) : Croupier :=
  let (shoe, stream) := c.shoe.shuffle c.plan.passes c.stream
  settle { c with shoe, stream, cursor := .start c.plan }

/-- `Dealer.fresh`, read strictly. -/
def freshStrict (deck : Deck) (plan : DealPlan) (count : Nat) (stream : Stream) :
    Option Croupier := do
  let seats ← plan.direction.walkStrict count (max count 1) .first
  return reset { shoe := .ofDeck deck, plan, seats, stream, cursor := .start plan }

/-- `Dealer.dealNext`, read strictly: the pile that was found is taken by its number. The next card
is taken from the shoe also where no pile was found. -/
def dealNextStrict (c : Croupier) (board : Board) :
    Option (Option String × Croupier × Board) :=
  let c := c.settle
  match c.cursor.pairs with
  | [] => some (none, c, board)
  | pair :: _ => do
    let (card, shoe) ← c.shoe.dealStrict
    match c.dealer.target? board pair, card with
    | some id, some card => do
      let pile ← board.pile? id
      return (some (Dealer.report card pile c.dealer.receiver?), settle (advance { c with shoe }),
        board.modify id fun _ => pile.add card)
    | _, _ => return (none, stop { c with shoe }, board)

/-- `Dealer.dealUpTo`, read strictly: the deal has to end within so many calls. -/
def dealUpToStrict : (n dealt : Nat) → Croupier → Board → Option (Nat × Croupier × Board)
  | 0, _, _, _ => none
  | n + 1, dealt, c, board => do
    match ← c.dealNextStrict board with
    | (some _, c, board) => dealUpToStrict n (dealt + 1) c board
    | (none, c, board) => return (dealt, c, board)

/-- `Dealer.dealAll`, read strictly. -/
def dealAllStrict (c : Croupier) (board : Board) : Option (Nat × Croupier × Board) := do
  let left ← c.shoe.remainingStrict
  dealUpToStrict (left + 1) 0 c board

/-! ### The same deal -/

variable {c : Croupier} {b : Board}

@[simp] theorem dealer_settle (c : Croupier) : c.settle.dealer = c.dealer.settle := rfl

@[simp] theorem dealer_advance (c : Croupier) : c.advance.dealer = c.dealer.advance :=
  c.dealer.advance_eq.symm

/-- A croupier who is reset is the dealer who is reset. -/
theorem dealer_reset (c : Croupier) : c.reset.dealer = c.dealer.reset := by
  have hshuffle : c.dealer.stock.shuffle c.dealer.plan.passes c.dealer.stream = _ :=
    (c.shoe.stock_shuffle c.plan.passes c.stream).symm
  rw [Dealer.reset, hshuffle]
  rfl

/-- The shoe of a croupier who is reset is sound. -/
theorem sound_reset (c : Croupier) : c.reset.shoe.Sound := Shoe.sound_shuffle ..

/-- There is a croupier for every dealer, with a sound shoe. -/
theorem freshStrict_eq (deck : Deck) (plan : DealPlan) (count : Nat) (stream : Stream) :
    ∃ c, freshStrict deck plan count stream = some c ∧
      c.dealer = .fresh deck plan count stream ∧ c.shoe.Sound := by
  rw [freshStrict, Direction.walkStrict_eq, Option.bind_eq_bind, Option.bind_some]
  refine ⟨_, rfl, ?_, sound_reset _⟩
  rw [dealer_reset, Dealer.fresh, dealer, Shoe.stock_ofDeck]

/-- A call finds the card and the pile, whatever the plan and wherever the dealer is in it. -/
theorem dealNextStrict_eq (h : c.shoe.Sound) (b : Board) :
    ∃ c', c.dealNextStrict b = some ((c.dealer.dealNext b).1, c', (c.dealer.dealNext b).2.2) ∧
      c'.dealer = (c.dealer.dealNext b).2.1 ∧ c'.shoe.Sound := by
  have hsettled : c.settle.shoe.Sound := h
  unfold dealNextStrict Dealer.dealNext
  dsimp only
  rw [← dealer_settle]
  generalize c.settle = c at hsettled ⊢
  obtain ⟨shoe, hdeal, hstock, hsound⟩ := c.shoe.dealStrict_eq hsettled
  change c.shoe.dealStrict = some (c.dealer.stock.deal.1, shoe) at hdeal
  change shoe.stock = c.dealer.stock.deal.2 at hstock
  cases hpairs : c.cursor.pairs with
  | nil =>
    rw [show c.dealer.cursor.pairs = [] from hpairs]
    exact ⟨c, rfl, rfl, hsettled⟩
  | cons pair rest =>
    rw [show c.dealer.cursor.pairs = pair :: rest from hpairs]
    dsimp only
    rw [hdeal, ← hstock]
    cases htarget : c.dealer.target? b pair with
    | none => exact ⟨_, rfl, rfl, hsound⟩
    | some id =>
      obtain ⟨pile, hpile⟩ := Board.exists_pile? (Board.find?_lt htarget)
      simp only [Option.bind_eq_bind, Option.bind_some, hpile, Option.map_some]
      cases c.dealer.stock.deal.1 with
      | none => exact ⟨_, rfl, rfl, hsound⟩
      | some card =>
        refine ⟨settle (advance { c with shoe }), ?_, ?_, hsound⟩
        · dsimp only
          rw [hpile, Option.bind_some, Board.modify_eq_of_pile? hpile (·.add card)]
          rfl
        · rw [dealer_settle, dealer_advance]
          rfl

/-- Every call that deals leaves fewer cards. -/
theorem remaining_dealNext {d : Dealer} {report : String}
    (h : (d.dealNext b).1 = some report) : (d.dealNext b).2.1.remaining < d.remaining := by
  have hstock : d.settle.stock = d.stock := rfl
  unfold Dealer.dealNext at h ⊢
  dsimp only at h ⊢
  cases hpairs : d.settle.cursor.pairs with
  | nil =>
    rw [hpairs] at h
    cases h
  | cons pair rest =>
    rw [hpairs] at h
    dsimp only at h ⊢
    cases hrest : d.stock.rest with
    | nil =>
      rw [hstock, Stock.deal, hrest] at h
      dsimp only at h
      cases htarget : (d.settle.target? b pair).bind fun id => (b.pile? id).map (id, ·) <;>
        rw [htarget] at h <;> cases h
    | cons card more =>
      rw [hstock, Stock.deal, hrest] at h ⊢
      cases htarget : (d.settle.target? b pair).bind fun id => (b.pile? id).map (id, ·) with
      | none =>
        rw [htarget] at h
        cases h
      | some target =>
        dsimp only
        rw [Dealer.advance_eq]
        show more.length < d.stock.rest.length
        rw [hrest]
        exact Nat.lt_succ_self _

/-- The deal ends within one call more than there are cards. -/
theorem dealUpToStrict_eq (h : c.shoe.Sound) {n : Nat} (hn : c.dealer.remaining < n) (dealt : Nat)
    (b : Board) :
    ∃ c', dealUpToStrict n dealt c b = some ((c.dealer.dealUpTo n dealt b).1, c',
        (c.dealer.dealUpTo n dealt b).2.2) ∧
      c'.dealer = (c.dealer.dealUpTo n dealt b).2.1 ∧ c'.shoe.Sound := by
  induction n generalizing c dealt b with
  | zero => exact absurd hn (Nat.not_lt_zero _)
  | succ n ih =>
    obtain ⟨c₁, hstrict, hdealer, hsound⟩ := dealNextStrict_eq h b
    have hless := @remaining_dealNext b c.dealer
    rw [dealUpToStrict, Dealer.dealUpTo, hstrict, Option.bind_eq_bind, Option.bind_some]
    generalize c.dealer.dealNext b = call at hdealer hless
    obtain ⟨answer, d₁, b₁⟩ := call
    cases answer with
    | none => exact ⟨c₁, rfl, hdealer, hsound⟩
    | some report =>
      have hleft : c₁.dealer.remaining < n := by
        rw [hdealer]
        exact Nat.lt_of_lt_of_le (hless rfl) (Nat.le_of_lt_succ hn)
      have hlater := ih hsound hleft (dealt + 1) b₁
      rwa [hdealer] at hlater

/-- Dealing on to the end from a sound shoe takes only cards that are there, and leaves it sound. -/
theorem dealAllStrict_eq (h : c.shoe.Sound) (b : Board) :
    ∃ c', c.dealAllStrict b = some ((c.dealer.dealAll b).1, c', (c.dealer.dealAll b).2.2) ∧
      c'.dealer = (c.dealer.dealAll b).2.1 ∧ c'.shoe.Sound := by
  rw [dealAllStrict, c.shoe.remainingStrict_eq h, Option.bind_eq_bind, Option.bind_some]
  exact dealUpToStrict_eq h (Nat.lt_succ_self _) 0 b

end Croupier

end HouseRules
