import Mathlib.Data.List.DropRight
import HouseRules.Proofs.Board.Moves
import HouseRules.Proofs.Operation

/-!
# What moving cards does

`Board.transfer` asks first, by numbers and places, whether the cards may be taken together, then
takes them one by one from a pile that gets smaller, and puts them down one by one. Where no two
cards on the board have one number this comes to something simpler: the cards that may be taken
together are those that the removal policy gives up (`Pile.Gives`, `Pile.canTake_iff_gives`), the
pile that they are taken from keeps its other cards in their order (`Pile.eraseAll_cards`), and they
come to lie above or below the cards of the other pile (`Board.Transferred`). If both piles are one,
the cards lie above or below those that were left.

Reference: `GameBoard.transfer`, `CardPile.take` (specification 8, E3).
-/

namespace HouseRules

open scoped List

/-! ## Taking cards together -/

namespace Pile

variable {p : Pile} {ids : List CardId} {c : Card} {i n : Nat}

/-- What a pile gives up together: some of its cards, each named once, and under the policy for
topmost cards as many from the top, named in any order. -/
structure Gives (p : Pile) (ids : List CardId) : Prop where
  some : ids ≠ []
  once : ids.Nodup
  present : ∀ id ∈ ids, ∃ card ∈ p.cards, card.id = id
  policy : p.policy.removal = .any ∨
    p.policy.removal = .top ∧ ids ~ (p.cards.rtake ids.length).map (·.id)

/-- A card is among the topmost ones if no more cards lie from its place on. -/
theorem mem_rtake_iff (hdistinct : (p.cards.map (·.id)).Nodup) (h : p.cards[i]? = some c) :
    c.id ∈ (p.cards.rtake n).map (·.id) ↔ p.size ≤ i + n := by
  have hlt := (List.getElem?_eq_some_iff.1 h).1
  rw [List.rtake, ← size, List.map_drop, List.mem_iff_getElem?]
  simp only [List.getElem?_drop]
  have hplace : (p.cards.map (·.id))[i]? = some c.id := by
    rw [List.getElem?_map, h, Option.map_some]
  constructor
  · rintro ⟨j, hj⟩
    have heq := (List.getElem?_inj (by simpa using hlt) hdistinct).1 (hplace.trans hj.symm)
    omega
  · intro hle
    refine ⟨i - (p.size - n), ?_⟩
    rw [Nat.add_sub_cancel' (by omega), hplace]

/-- The policy permits taking some different cards of the pile together if it is the one for any
cards, or the one for topmost cards and they are the topmost ones. -/
theorem permitsTaking_iff (hdistinct : (p.cards.map (·.id)).Nodup) (hsome : ids ≠ [])
    (honce : ids.Nodup) (hpresent : ∀ id ∈ ids, p.contains id = true) :
    p.permitsTaking ids = true ↔ p.policy.removal = .any ∨
      p.policy.removal = .top ∧ ids ~ (p.cards.rtake ids.length).map (·.id) := by
  unfold permitsTaking
  split
  next hany => simp [hany]
  next htop =>
    have hplaces : ∀ id ∈ ids, p.size ≤ (p.position? id).getD 0 + ids.length ↔
        id ∈ (p.cards.rtake ids.length).map (·.id) := by
      intro id hid
      obtain ⟨i, hi⟩ := exists_position?_of_contains (hpresent id hid)
      obtain ⟨card, hcard, rfl⟩ := position?_spec hi
      rw [hi, mem_rtake_iff hdistinct hcard, Option.getD_some]
    simp only [htop, reduceCtorEq, false_or, true_and, List.all_eq_true, decide_eq_true_eq]
    constructor
    · intro hall
      have hsub : ids ⊆ (p.cards.rtake ids.length).map (·.id) := fun id hid =>
        (hplaces id hid).1 (hall id hid)
      -- There are no more topmost cards than numbers.
      refine (List.subperm_of_subset honce hsub).perm_of_length_le ?_
      rw [List.length_map, List.rtake, List.length_drop]
      omega
    · exact fun hperm id hid => (hplaces id hid).2 (hperm.mem_iff.1 hid)
  next hnone => simp [hnone, hsome]

/-- The check before cards are taken. -/
theorem canTake_iff_gives (hdistinct : (p.cards.map (·.id)).Nodup) :
    ids ≠ [] ∧ p.canTake ids = true ↔ p.Gives ids := by
  simp only [canTake, Bool.and_eq_true, List.all_eq_true, decide_eq_true_eq]
  constructor
  · rintro ⟨hsome, ⟨hpresent, honce⟩, hpermits⟩
    exact ⟨hsome, honce, fun id hid => contains_iff_exists.1 (hpresent id hid),
      (permitsTaking_iff hdistinct hsome honce hpresent).1 hpermits⟩
  · rintro ⟨hsome, honce, hpresent, hpolicy⟩
    have hpresent : ∀ id ∈ ids, p.contains id = true := fun id hid =>
      contains_iff_exists.2 (hpresent id hid)
    exact ⟨hsome, ⟨hpresent, honce⟩,
      (permitsTaking_iff hdistinct hsome honce hpresent).2 hpolicy⟩

/-! ## What is left and what is taken -/

/-- Erasing the card of a number leaves those of other numbers. -/
theorem erase_cards (hdistinct : (p.cards.map (·.id)).Nodup) (id : CardId) :
    (p.erase id).cards = p.cards.filter (·.id ≠ id) := by
  obtain ⟨name, slot, owner, policy, cards⟩ := p
  simp only [erase] at hdistinct ⊢
  induction cards with
  | nil => rfl
  | cons c cs ih =>
    obtain ⟨hnew, hdistinct⟩ := List.nodup_cons.1 hdistinct
    by_cases hc : c.id = id
    · subst hc
      have hall : ∀ e ∈ cs, decide (e.id ≠ c.id) = true := fun e he =>
        decide_eq_true fun heq => hnew (List.mem_map.2 ⟨e, he, heq⟩)
      rw [List.eraseP_cons_of_pos (by simp), List.filter_cons_of_neg (by simp),
        List.filter_eq_self.2 hall]
    · rw [List.eraseP_cons_of_neg (by simp [hc]), List.filter_cons_of_pos (by simp [hc]),
        ih hdistinct]

/-- Erasing the cards of some numbers leaves those of other numbers. -/
theorem eraseAll_cards (hdistinct : (p.cards.map (·.id)).Nodup) (ids : List CardId) :
    (p.eraseAll ids).cards = p.cards.filter (·.id ∉ ids) := by
  induction ids generalizing p with
  | nil => simp [eraseAll]
  | cons id ids ih =>
    have herase := erase_cards hdistinct id
    have hdistinct' : ((p.erase id).cards.map (·.id)).Nodup := by
      rw [herase]
      exact hdistinct.sublist (List.filter_sublist.map _)
    have hcons : p.eraseAll (id :: ids) = (p.erase id).eraseAll ids := rfl
    rw [hcons, ih hdistinct', herase, List.filter_filter]
    refine List.filter_congr fun e _ => ?_
    simp [Bool.and_comm]

/-- The cards that are taken are those of the numbers, in their order. -/
theorem map_id_filterMap_card? (h : ∀ id ∈ ids, p.contains id = true) :
    (ids.filterMap p.card?).map (·.id) = ids := by
  induction ids with
  | nil => rfl
  | cons id ids ih =>
    obtain ⟨card, hcard⟩ := contains_iff.1 (h id List.mem_cons_self)
    have hid : card.id = id := by simpa using List.find?_some hcard
    rw [List.filterMap_cons_some hcard, List.map_cons, hid,
      ih fun id hid => h id (List.mem_cons_of_mem _ hid)]

/-- Cards that are looked up in a pile are cards of it. -/
theorem filterMap_card?_subset (p : Pile) (ids : List CardId) :
    ids.filterMap p.card? ⊆ p.cards := fun card hcard => by
  obtain ⟨id, -, hid⟩ := List.mem_filterMap.1 hcard
  exact List.mem_of_find?_eq_some hid

/-- To leave the cards of other numbers is to leave the other cards. -/
theorem filter_id_not_mem (hdistinct : (p.cards.map (·.id)).Nodup) {cards : List Card}
    (hsub : cards ⊆ p.cards) :
    p.cards.filter (·.id ∉ cards.map (·.id)) = p.cards.filter (· ∉ cards) := by
  refine List.filter_congr fun c hc => ?_
  have hmem : c.id ∈ cards.map (·.id) ↔ c ∈ cards := by
    refine ⟨fun h => ?_, List.mem_map_of_mem⟩
    obtain ⟨e, he, hid⟩ := List.mem_map.1 h
    exact List.inj_on_of_nodup_map hdistinct (hsub he) hc hid ▸ he
  simp only [hmem]

/-- Under the policy to place cards at the bottom, added cards lie below the others, the last of
them lowest. -/
theorem addAll_of_bottom (h : p.policy.placement = .bottom) (cards : List Card) :
    (p.addAll cards).cards = cards.reverse ++ p.cards := by
  simp only [addAll, h]

end Pile

/-! ## Boards -/

namespace Board

/-- No two cards on the board have one number. -/
def Distinct (b : Board) : Prop := ((b.piles.flatMap (·.cards)).map (·.id)).Nodup

/-- The cards of a pile but for some that have been taken from one. -/
def cardsWithout (b : Board) (source : PileId) (taken : List Card) (id : PileId) : List Card :=
  if id = source then (b.cardsAt id).filter (· ∉ taken) else b.cardsAt id

/-- Some cards of a pile have come to lie, the first of them lowest, above what is then left in a
pile where cards are put on top, or the first of them highest, below it in one where they are put
under the others; and nothing else has happened. -/
structure Transferred (b b' : Board) (source target : PileId) (cards : List Card) : Prop where
  frame : b'.clear = b.clear
  removed : b'.removed = b.removed
  others : ∀ id, id ≠ target → b'.cardsAt id = b.cardsWithout source cards id
  above : ∀ q, b.pile? target = some q → q.policy.placement = .top →
    b'.cardsAt target = b.cardsWithout source cards target ++ cards
  below : ∀ q, b.pile? target = some q → q.policy.placement = .bottom →
    b'.cardsAt target = cards.reverse ++ b.cardsWithout source cards target

variable {b b' : Board} {source target : PileId} {p q : Pile} {ids : List CardId}

/-- No two cards of one pile have one number either. -/
theorem Distinct.pile (h : b.Distinct) {id : PileId} (hp : b.pile? id = some p) :
    (p.cards.map (·.id)).Nodup := by
  have hmem : p.cards ∈ b.piles.map (·.cards) := List.mem_map_of_mem (List.mem_of_getElem? hp)
  exact h.sublist ((List.sublist_flatten_of_mem hmem).map _)

/-- A move of cards is refused unless the pile gives them up. -/
theorem isSome_transfer_iff (hdistinct : b.Distinct) (hsource : b.pile? source = some p) :
    (b.transfer source target ids).isSome = true ↔ p.Gives ids := by
  rw [← Pile.canTake_iff_gives (hdistinct.pile hsource), Option.isSome_iff_exists]
  simp only [transfer_eq_some, hsource, Option.some.injEq, exists_eq_left']
  exact ⟨fun ⟨_, hsome, htake, _⟩ => ⟨hsome, htake⟩, fun ⟨hsome, htake⟩ => ⟨_, hsome, htake, rfl⟩⟩

/-- The pile that cards are put on has the policy that it had. -/
theorem exists_pile?_of_frame (hframe : b'.clear = b.clear) {id : PileId}
    (hq : b.pile? id = some q) : ∃ q', b'.pile? id = some q' ∧ q'.policy = q.policy := by
  have hclear : b'.clear.pile? id = some q.clear := by
    rw [hframe, pile?_clear, hq, Option.map_some]
  obtain ⟨q', hq', hpolicy⟩ := exists_pile?_of_clear hclear
  exact ⟨q', hq', hpolicy⟩

/-- What is left when some cards have been taken from a pile. -/
theorem cardsAt_eraseAll (hdistinct : b.Distinct) (hsource : b.pile? source = some p)
    {cards : List Card} (hids : cards.map (·.id) = ids) (hsub : cards ⊆ p.cards) (id : PileId) :
    (b.modify source (·.eraseAll ids)).cardsAt id = b.cardsWithout source cards id := by
  have hpile := hdistinct.pile hsource
  rw [cardsAt_modify, cardsWithout]
  by_cases heq : id = source
  · rw [if_pos heq, if_pos heq, heq, cardsAt_of_pile? hsource, hsource, Option.map_some,
      Option.getD_some, Pile.eraseAll_cards hpile, ← hids, Pile.filter_id_not_mem hpile hsub]
  · rw [if_neg heq, if_neg heq]

/-- A move takes the cards of the numbers, in their order, from one pile to the other. -/
theorem transferred_of_transfer (hdistinct : b.Distinct) (hsource : b.pile? source = some p)
    (h : b.transfer source target ids = some b') :
    ∃ cards, cards.map (·.id) = ids ∧ cards ⊆ p.cards ∧ b.Transferred b' source target cards := by
  have hframe := clear_transfer h
  obtain ⟨p', hp', -, htake, rfl⟩ := transfer_eq_some.1 h
  obtain rfl : p' = p := Option.some.inj (hp'.symm.trans hsource)
  simp only [Pile.canTake, Bool.and_eq_true, List.all_eq_true] at htake
  have hids := Pile.map_id_filterMap_card? htake.1.1
  have hsub := p'.filterMap_card?_subset ids
  generalize ids.filterMap p'.card? = cards at *
  have hleft := cardsAt_eraseAll hdistinct hsource hids hsub
  have hkeeps : (b.modify source (·.eraseAll ids)).clear = b.clear :=
    clear_modify fun q _ => q.clear_eraseAll ids
  have hremoved : (b.modify source (·.eraseAll ids)).removed = b.removed := rfl
  generalize b.modify source (·.eraseAll ids) = left at *
  -- The pile that the cards are put on, as it is when they come.
  have hput : ∀ q, b.pile? target = some q → ∃ q' : Pile, q'.policy = q.policy ∧
      q'.cards = b.cardsWithout source cards target ∧
      (left.modify target (·.addAll cards)).cardsAt target = (q'.addAll cards).cards := by
    intro q hq
    obtain ⟨q', hq', hpolicy⟩ := exists_pile?_of_frame hkeeps hq
    refine ⟨q', hpolicy, by rw [← hleft, cardsAt_of_pile? hq'], ?_⟩
    rw [cardsAt_modify, if_pos rfl, hq', Option.map_some, Option.getD_some]
  refine ⟨cards, hids, hsub, hframe, hremoved, fun id hid => ?_, fun q hq htop => ?_,
    fun q hq hbottom => ?_⟩
  · rw [← hleft, cardsAt_modify, if_neg hid]
  · obtain ⟨q', hpolicy, hcards, hput⟩ := hput q hq
    rw [hput, Pile.addAll_of_top (hpolicy ▸ htop), hcards]
  · obtain ⟨q', hpolicy, hcards, hput⟩ := hput q hq
    rw [hput, Pile.addAll_of_bottom (hpolicy ▸ hbottom), hcards]

end Board

/-! ## Calls -/

namespace Operation

variable {t : Table} {p q : Pile} {ranking : Ranking} {phases : Nat}

/-- A call whose arguments are of the game is carried out. -/
theorem dispatch_eq {c : Call} {op : Operation} (hop : c.operation = .ok op)
    (harity : c.verb.signature.arity ≤ c.values.length)
    (hbelongs : ∀ v ∈ c.values, v.belongs t phases = true) :
    dispatch c ranking phases t = .ok (op.run ranking t) :=
  dispatch_ok.2 ⟨op, prepare_ok.2 ⟨harity, hbelongs, hop⟩, rfl⟩

/-- A pile that is found belongs to the table. -/
theorem belongs_pile {id : PileId} (h : t.board.pile? id = some p) :
    (Value.pile id).belongs t phases = true :=
  decide_eq_true (List.getElem?_eq_some_iff.1 h).1

/-- Cards are no part of the game that could be missing. -/
theorem belongs_of_fits_cards {v : Value} (h : v.fits .cards = true) :
    v.belongs t phases = true := by
  cases v with
  | card | cards | text | integer => rfl
  | player | pile | piles | phase => cases h

/-- **Moving cards.** On a board where no two cards have one number, cards can be moved from one
pile to another exactly where the first gives them up together, whatever the other pile is, be it
the same; they come to lie above or below the cards that are then in it, in the order in which they
were named, and nothing else changes. A move that is refused changes nothing. The verbs `put`,
`put-multiple` and `put-top` move one card, several, and the topmost. -/
theorem moves_exactly (t : Table) (source target : PileId) (hdistinct : t.board.Distinct)
    (hsource : t.board.pile? source = some p) (htarget : t.board.pile? target = some q)
    (ranking : Ranking) (phases : Nat) :
    (∀ ids, ((t.board.transfer source target ids).isSome = true ↔ p.Gives ids) ∧
      ∀ board, t.board.transfer source target ids = some board →
        ∃ cards, cards.map (·.id) = ids ∧ cards ⊆ p.cards ∧
          t.board.Transferred board source target cards) ∧
    (∀ card, dispatch ⟨.put, [.pile source, .pile target, .card card]⟩ ranking phases t =
      .ok (moved t (t.board.transfer source target [card.id]))) ∧
    (∀ v, v.fits .cards = true →
      dispatch ⟨.putMultiple, [.pile source, .pile target, v]⟩ ranking phases t =
        .ok (moved t (t.board.transfer source target (v.asCards.map (·.id))))) ∧
    dispatch ⟨.putTop, [.pile source, .pile target]⟩ ranking phases t =
      .ok (moved t (p.top?.bind fun card => t.board.transfer source target [card.id])) ∧
    moved t none = (.bool false, t) ∧
    ∀ board, moved t (some board) = (.bool true, { t with board }) := by
  refine ⟨fun ids => ⟨Board.isSome_transfer_iff hdistinct hsource, fun board =>
    Board.transferred_of_transfer hdistinct hsource⟩, fun card => ?_, fun v hv => ?_, ?_, rfl,
    fun _ => rfl⟩
  · have hop : (Call.mk .put [.pile source, .pile target, .card card]).operation =
        .ok (.transfer source target [card.id]) := rfl
    have hcard : (Value.card card).belongs t phases = true := rfl
    exact dispatch_eq hop (Nat.le_refl 3)
      (by simp [belongs_pile hsource, belongs_pile htarget, hcard])
  · have hop : (Call.mk .putMultiple [.pile source, .pile target, v]).operation =
        .ok (.transfer source target (v.asCards.map (·.id))) := by
      simp [Call.operation, Call.pile, Call.cards, Call.read, Call.argument, hv, bind, Except.bind,
        pure, Except.pure]
    exact dispatch_eq hop (Nat.le_refl 3)
      (by simp [belongs_pile hsource, belongs_pile htarget, belongs_of_fits_cards hv])
  · have hop : (Call.mk .putTop [.pile source, .pile target]).operation =
        .ok (.transferTop source target) := rfl
    have htop : t.board.transferTop source target =
        p.top?.bind fun card => t.board.transfer source target [card.id] := by
      rw [Board.transferTop, hsource]
      rfl
    rw [← htop]
    exact dispatch_eq hop (Nat.le_refl 2) (by simp [belongs_pile hsource, belongs_pile htarget])

/-- A table with a pile of three cards that gives up its topmost ones, and one that cards are put
under. -/
def twoPiles : Table :=
  let stock : Pile := ⟨"stock", ⟨0⟩, none, { removal := .top },
    [⟨0, "a", none⟩, ⟨1, "b", none⟩, ⟨2, "c", none⟩]⟩
  let heap : Pile := ⟨"heap", ⟨1⟩, none, { placement := .bottom }, [⟨3, "d", none⟩]⟩
  .fresh ⟨[stock, heap], []⟩ [.seated "ann" []] .clockwise (.ofSeed 0)

/-- The two topmost cards come to lie under the heap, the one that was named first highest. The
lowest card alone stays where it is. -/
theorem twoPiles_moves :
    twoPiles.board.Distinct ∧
      (∃ p q, twoPiles.board.pile? ⟨0⟩ = some p ∧ twoPiles.board.pile? ⟨1⟩ = some q ∧
        p.Gives [2, 1] ∧ ¬ p.Gives [0]) ∧
      (∃ board cards, dispatch ⟨.putMultiple, [.pile ⟨0⟩, .pile ⟨1⟩,
            .cards [⟨2, "c", none⟩, ⟨1, "b", none⟩]]⟩ .flat 0 twoPiles =
          .ok (.bool true, { twoPiles with board }) ∧
        cards.map (·.id) = [2, 1] ∧ twoPiles.board.Transferred board ⟨0⟩ ⟨1⟩ cards ∧
        (board.cardsAt ⟨0⟩).map (·.id) = [0] ∧ (board.cardsAt ⟨1⟩).map (·.id) = [1, 2, 3]) ∧
      dispatch ⟨.put, [.pile ⟨0⟩, .pile ⟨1⟩, .card ⟨0, "a", none⟩]⟩ .flat 0 twoPiles =
        .ok (.bool false, twoPiles) := by
  have hdistinct : twoPiles.board.Distinct := by
    unfold Board.Distinct
    decide
  obtain ⟨hmoves, hput, hputMultiple, -, hrefused, hmoved⟩ :=
    moves_exactly twoPiles ⟨0⟩ ⟨1⟩ hdistinct rfl rfl .flat 0
  obtain ⟨board, hboard⟩ := Option.isSome_iff_exists.1
    (show (twoPiles.board.transfer ⟨0⟩ ⟨1⟩ [2, 1]).isSome = true from rfl)
  have hnone : twoPiles.board.transfer ⟨0⟩ ⟨1⟩ [0] = none := rfl
  obtain ⟨cards, hids, -, hcards⟩ := (hmoves [2, 1]).2 board hboard
  refine ⟨hdistinct, ⟨_, _, rfl, rfl, (hmoves [2, 1]).1.1 (by rw [hboard]; rfl), fun hgives => ?_⟩,
    ⟨board, cards, ?_, hids, hcards, ?_, ?_⟩, ?_⟩
  · exact absurd ((hmoves [0]).1.2 hgives) (by rw [hnone]; exact Bool.false_ne_true)
  · rw [hputMultiple _ rfl, ← hmoved board, ← hboard]
    rfl
  · cases hboard
    rfl
  · cases hboard
    rfl
  · rw [hput, ← hrefused, ← hnone]

end Operation

end HouseRules
