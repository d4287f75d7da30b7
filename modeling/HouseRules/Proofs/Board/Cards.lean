import Mathlib.Algebra.Order.Group.Multiset
import Mathlib.Data.List.Perm.Basic
import HouseRules.Board
import HouseRules.Proofs.Pile

/-!
# No move loses a card

The bag of a board is the multiset of all its cards, those out of play included. Every move leaves
the bag as it is: taking cards and putting them down are accounted for apart (`Board.bag_take`,
`Board.bag_put`), and a move is one after the other. The cards that a move puts down are those it
found under their numbers, so it does not matter what else the caller says about a card.

Both halves need their pile to be on the board. For the pile that cards are taken from the move
itself asks; for the pile that they are put on, whoever moves cards has asked before.
-/

namespace HouseRules

open Chance (Stream)
open scoped List

/-! ## Piles -/

namespace Pile

/-- The cards of a pile, without their order. -/
def bag (p : Pile) : Multiset Card := p.cards

@[simp] theorem bag_clear (p : Pile) : p.clear.bag = 0 := rfl

@[simp] theorem bag_addAll (p : Pile) (cards : List Card) :
    (p.addAll cards).bag = p.bag + cards := by
  unfold addAll bag
  split
  · exact (Multiset.coe_add ..).symm
  · rw [← Multiset.coe_add, Multiset.coe_reverse, add_comm]

@[simp] theorem bag_add (p : Pile) (card : Card) : (p.add card).bag = p.bag + {card} :=
  bag_addAll p [card]

/-- Cards of other numbers are found as before. -/
theorem card?_erase {p : Pile} {id other : CardId} (h : other ≠ id) :
    (p.erase id).card? other = p.card? other := by
  obtain ⟨name, slot, owner, policy, cards⟩ := p
  simp only [erase, card?]
  induction cards with
  | nil => rfl
  | cons c cs ih =>
    by_cases hc : c.id = id
    · rw [List.eraseP_cons_of_pos (by simp [hc]), List.find?_cons_of_neg (by simp [hc, h.symm])]
    · rw [List.eraseP_cons_of_neg (by simp [hc]), List.find?_cons, List.find?_cons, ih]

/-- A pile without a card and the card make up the pile. -/
theorem bag_erase {p : Pile} {id : CardId} {card : Card} (h : p.card? id = some card) :
    (p.erase id).bag + {card} = p.bag := by
  obtain ⟨name, slot, owner, policy, cards⟩ := p
  simp only [card?, bag, erase] at h ⊢
  rw [add_comm, Multiset.singleton_add, Multiset.cons_coe, Multiset.coe_eq_coe]
  induction cards with
  | nil => cases h
  | cons c cs ih =>
    by_cases hc : c.id = id
    · rw [List.find?_cons_of_pos (by simp [hc])] at h
      cases h
      rw [List.eraseP_cons_of_pos (by simp [hc])]
    · rw [List.find?_cons_of_neg (by simp [hc])] at h
      rw [List.eraseP_cons_of_neg (by simp [hc])]
      exact (List.Perm.swap ..).trans ((ih h).cons c)

/-- A pile without some different cards and these cards make up the pile. -/
theorem bag_eraseAll {p : Pile} {ids : List CardId} (hnodup : ids.Nodup)
    (hcontains : ∀ id ∈ ids, p.contains id = true) :
    (p.eraseAll ids).bag + (ids.filterMap p.card? : List Card) = p.bag := by
  induction ids generalizing p with
  | nil => simp [eraseAll]
  | cons id ids ih =>
    obtain ⟨hnew, hnodup⟩ := List.nodup_cons.1 hnodup
    have hother : ∀ other ∈ ids, (p.erase id).card? other = p.card? other := fun other hmem =>
      card?_erase fun heq => hnew (heq ▸ hmem)
    have hfilter : ids.filterMap (p.erase id).card? = ids.filterMap p.card? :=
      List.filterMap_congr hother
    have hrest := ih (p := p.erase id) hnodup fun other hmem => by
      rw [contains_iff, hother other hmem, ← contains_iff]
      exact hcontains other (List.mem_cons_of_mem _ hmem)
    obtain ⟨card, hcard⟩ := contains_iff.1 (hcontains id List.mem_cons_self)
    rw [hfilter] at hrest
    calc ((p.erase id).eraseAll ids).bag + ((id :: ids).filterMap p.card? : List Card)
        = ((p.erase id).eraseAll ids).bag + (ids.filterMap p.card? : List Card) + {card} := by
          rw [List.filterMap_cons_some hcard, ← Multiset.cons_coe, ← Multiset.singleton_add]
          ac_rfl
      _ = p.bag := by rw [hrest, bag_erase hcard]

/-- One card for another. -/
theorem bag_replace {p : Pile} {id : CardId} {old : Card} (h : p.card? id = some old)
    (new : Card) : (p.replace id new).bag + {old} = p.bag + {new} := by
  obtain ⟨i, hi, hold⟩ := exists_position? h
  obtain ⟨hlt, rfl⟩ := List.getElem?_eq_some_iff.1 hold
  simp only [replace, hi, bag, ← Multiset.coe_singleton, Multiset.coe_add, Multiset.coe_eq_coe]
  calc p.cards.set i new ++ [p.cards[i]]
    _ ~ p.cards[i] :: p.cards.set i new := List.perm_append_singleton ..
    _ ~ p.cards[i] :: new :: p.cards.eraseIdx i := (List.set_perm_cons_eraseIdx hlt new).cons _
    _ ~ new :: p.cards[i] :: p.cards.eraseIdx i := List.Perm.swap ..
    _ ~ new :: p.cards := (List.getElem_cons_eraseIdx_perm hlt).cons _
    _ ~ p.cards ++ [new] := (List.perm_append_singleton ..).symm

/-- Two cards in each other's places. -/
theorem bag_swap? {p swapped : Pile} {a b : CardId} (h : p.swap? a b = some swapped) :
    swapped.bag = p.bag := by
  simp only [swap?, Option.bind_eq_bind, Option.bind_eq_some_iff] at h
  obtain ⟨i, _, j, _, cardA, hA, cardB, hB, h⟩ := h
  obtain ⟨hi, rfl⟩ := List.getElem?_eq_some_iff.1 hA
  obtain ⟨hj, rfl⟩ := List.getElem?_eq_some_iff.1 hB
  split at h
  · cases h
  · cases h
    exact Multiset.coe_eq_coe.2 (List.set_set_perm hi hj)

@[simp] theorem bag_sort (p : Pile) (compare : Card → Card → Ordering) :
    (p.sort compare).bag = p.bag :=
  Multiset.coe_eq_coe.2 (List.mergeSort_perm ..)

@[simp] theorem bag_shuffle (p : Pile) (stream : Stream) : (p.shuffle stream).1.bag = p.bag :=
  Multiset.coe_eq_coe.2 (Chance.shuffle_perm ..)

end Pile

/-! ## Boards -/

namespace Board

/-- The cards of a board and those out of play, without their order. -/
def bag (b : Board) : Multiset Card := b.cards

/-- Changing a pile changes the bag as it changes the pile's. -/
theorem bag_modify {b : Board} {id : PileId} {p : Pile} (change : Pile → Pile)
    (h : b.pile? id = some p) :
    (b.modify id change).bag + p.bag = b.bag + (change p).bag := by
  obtain ⟨hlt, hp⟩ := List.getElem?_eq_some_iff.1 h
  have hpiles : b.piles = b.piles.take id.index ++ p :: b.piles.drop (id.index + 1) := by
    rw [← hp, ← List.drop_eq_getElem_cons hlt, List.take_append_drop]
  have hmodify : (b.modify id change).piles =
      b.piles.take id.index ++ change p :: b.piles.drop (id.index + 1) := by
    rw [modify, List.modify_eq_take_cons_drop hlt, hp]
  have hremoved : (b.modify id change).removed = b.removed := rfl
  rw [bag, bag, cards, cards, hmodify, hremoved]
  nth_rewrite 3 [hpiles]
  simp only [List.flatMap_append, List.flatMap_cons, ← Multiset.coe_add, Pile.bag]
  ac_rfl

/-- What a change takes out of a pile it takes off the board. -/
theorem bag_take {b : Board} {id : PileId} {p : Pile} {change : Pile → Pile}
    {taken : Multiset Card} (h : b.pile? id = some p) (hchange : (change p).bag + taken = p.bag) :
    (b.modify id change).bag + taken = b.bag := by
  apply add_right_cancel (b := (change p).bag)
  rw [← bag_modify change h, ← hchange]
  ac_rfl

/-- What a change puts on a pile it puts on the board, if the pile is there. -/
theorem bag_put {b : Board} {id : PileId} {change : Pile → Pile} {put : Multiset Card}
    (h : id.index < b.size) (hchange : ∀ p, (change p).bag = p.bag + put) :
    (b.modify id change).bag = b.bag + put := by
  have hp : b.pile? id = some b.piles[id.index] := List.getElem?_eq_getElem h
  apply add_right_cancel (b := b.piles[id.index].bag)
  rw [bag_modify change hp, hchange]
  ac_rfl

/-- A change that keeps the cards of the pile keeps those of the board. -/
theorem bag_modify_of_eq {b : Board} {id : PileId} {change : Pile → Pile}
    (h : ∀ p, b.pile? id = some p → (change p).bag = p.bag) : (b.modify id change).bag = b.bag := by
  cases hp : b.pile? id with
  | none =>
    have : b.piles.length ≤ id.index := List.getElem?_eq_none_iff.1 hp
    rw [modify, List.modify_eq_self this]
  | some p => exact add_right_cancel (by rw [bag_modify change hp, h p hp])

/-- Cards out of play count as those on the board do. -/
theorem bag_withRemoved (b : Board) (cards : List Card) :
    ({ b with removed := b.removed ++ cards } : Board).bag = b.bag + cards := by
  simp only [bag, Board.cards, ← Multiset.coe_add]
  ac_rfl

/-! ## Moves -/

/-- What may be taken is there, each card once. -/
theorem bag_eraseAll_of_canTake {p : Pile} {ids : List CardId}
    (h : ¬ (ids.isEmpty || !p.canTake ids) = true) :
    (p.eraseAll ids).bag + (ids.filterMap p.card? : List Card) = p.bag := by
  simp only [Bool.or_eq_true, Bool.not_eq_true', not_or, Bool.not_eq_false, Pile.canTake,
    Bool.and_eq_true, decide_eq_true_eq, List.all_eq_true] at h
  exact Pile.bag_eraseAll h.2.1.2 h.2.1.1

/-- A transfer loses no card. -/
theorem bag_transfer {b b' : Board} {source target : PileId} {ids : List CardId}
    (htarget : target.index < b.size) (h : b.transfer source target ids = some b') :
    b'.bag = b.bag := by
  simp only [transfer, Option.bind_eq_bind, Option.bind_eq_some_iff] at h
  obtain ⟨pile, hpile, h⟩ := h
  split at h
  · cases h
  next htake =>
    cases h
    rw [bag_put (by rwa [size_modify]) fun p => p.bag_addAll _]
    exact bag_take hpile (bag_eraseAll_of_canTake htake)

/-- Moving the topmost card loses no card. -/
theorem bag_transferTop {b b' : Board} {source target : PileId}
    (htarget : target.index < b.size) (h : b.transferTop source target = some b') :
    b'.bag = b.bag := by
  simp only [transferTop, Option.bind_eq_bind, Option.bind_eq_some_iff] at h
  obtain ⟨pile, _, card, _, h⟩ := h
  exact bag_transfer htarget h

/-- Moving all cards loses none of them, also where source and target are one pile. -/
theorem bag_transferAll {b : Board} {source target : PileId} (htarget : target.index < b.size) :
    (b.transferAll source target).bag = b.bag := by
  unfold transferAll
  split
  · rfl
  · split
    next pile hpile =>
      rw [bag_put (by rwa [size_modify]) fun p => p.bag_addAll _]
      exact bag_take hpile (by rw [Pile.bag_clear, zero_add, Pile.bag])
    next => rfl

/-- An exchange loses no card. -/
theorem bag_exchange {b b' : Board} {a c : PileId} {cardA cardB : CardId}
    (h : b.exchange a c cardA cardB = some b') : b'.bag = b.bag := by
  simp only [exchange, Option.bind_eq_bind, Option.bind_eq_some_iff] at h
  obtain ⟨pileA, hA, pileB, hB, h⟩ := h
  split at h
  · cases h
  · split at h
    · obtain ⟨swapped, hswap, h⟩ := Option.bind_eq_some_iff.1 h
      cases h
      refine bag_modify_of_eq fun p hp => ?_
      rw [hA] at hp
      cases hp
      exact Pile.bag_swap? hswap
    next hne =>
      simp only [Option.bind_eq_some_iff] at h
      obtain ⟨first, hfirst, second, hsecond, h⟩ := h
      cases h
      -- The second pile is another one, so the first change has not touched it.
      have hB' : (b.modify a (·.replace cardA second)).pile? c = some pileB := by
        rw [pile?_modify, if_neg fun heq => hne (by cases a; cases c; simp_all), hB]
      have h₁ := bag_modify (·.replace cardA second) hA
      have h₂ := bag_modify (·.replace cardB first) hB'
      have hrA := Pile.bag_replace hfirst second
      have hrB := Pile.bag_replace hsecond first
      apply add_right_cancel (b := pileA.bag + pileB.bag + {first} + {second})
      calc _ = (((b.modify a (·.replace cardA second)).modify c (·.replace cardB first)).bag +
                pileB.bag) + (pileA.bag + {second}) + {first} := by ac_rfl
        _ = (b.modify a (·.replace cardA second)).bag + pileA.bag +
              ((pileB.replace cardB first).bag + {second}) + {first} := by rw [h₂]; ac_rfl
        _ = b.bag + ((pileA.replace cardA second).bag + {first}) + (pileB.bag + {first}) := by
          rw [h₁, hrB]; ac_rfl
        _ = _ := by rw [hrA]; ac_rfl

/-- Removing cards takes them off the piles and keeps them among those out of play. -/
theorem bag_remove {b b' : Board} {source : PileId} {ids : List CardId}
    (h : b.remove source ids = some b') : b'.bag = b.bag := by
  simp only [remove, Option.bind_eq_bind, Option.bind_eq_some_iff] at h
  obtain ⟨pile, hpile, h⟩ := h
  split at h
  · cases h
  next htake =>
    cases h
    rw [bag_withRemoved]
    exact bag_take hpile (bag_eraseAll_of_canTake htake)

@[simp] theorem bag_removeAll (b : Board) (source : PileId) : (b.removeAll source).bag = b.bag := by
  unfold removeAll
  split
  next pile hpile =>
    rw [bag_withRemoved]
    exact bag_take hpile (by rw [Pile.bag_clear, zero_add, Pile.bag])
  next => rfl

/-- Emptying several piles keeps their cards among those out of play. -/
theorem bag_foldl_removeAll (b : Board) (ids : List PileId) :
    (ids.foldl removeAll b).bag = b.bag := by
  induction ids generalizing b with
  | nil => rfl
  | cons id ids ih => rw [List.foldl_cons, ih, bag_removeAll]

@[simp] theorem bag_shuffle (b : Board) (id : PileId) (stream : Stream) :
    (b.shuffle id stream).1.bag = b.bag := by
  unfold shuffle
  split
  next pile hpile =>
    refine bag_modify_of_eq fun p hp => ?_
    rw [hpile] at hp
    cases hp
    exact pile.bag_shuffle stream
  next => rfl

@[simp] theorem bag_clear (b : Board) : b.clear.bag = 0 := by
  have : b.clear.piles.flatMap (·.cards) = [] := by
    simp [clear, Pile.clear, List.flatMap_map]
  rw [bag, cards, this]
  rfl

end Board

end HouseRules
