import Mathlib.Data.List.Basic
import HouseRules.Operation

/-!
# The frame of a board

The frame of a board is what is left when all cards are taken off it, `Board.clear`: the piles with
their names, slots, owners and policies. Play moves cards and nothing else, so every move keeps the
frame (`Operation.clear_run`), and a board in play has the frame of its layout
(`Board.ofLayout`).
-/

namespace HouseRules

open Chance (Stream)

/-! ## Piles -/

namespace Pile

@[simp] theorem clear_clear (p : Pile) : p.clear.clear = p.clear := rfl

@[simp] theorem clear_slot (p : Pile) : p.clear.slot = p.slot := rfl

@[simp] theorem clear_owner (p : Pile) : p.clear.owner = p.owner := rfl

@[simp] theorem clear_addAll (p : Pile) (cards : List Card) : (p.addAll cards).clear = p.clear := by
  unfold addAll
  split <;> rfl

@[simp] theorem clear_add (p : Pile) (card : Card) : (p.add card).clear = p.clear :=
  clear_addAll p [card]

@[simp] theorem clear_eraseAll (p : Pile) (ids : List CardId) :
    (p.eraseAll ids).clear = p.clear := by
  induction ids generalizing p with
  | nil => rfl
  | cons id ids ih => exact (ih (p.erase id)).trans rfl

@[simp] theorem clear_replace (p : Pile) (id : CardId) (card : Card) :
    (p.replace id card).clear = p.clear := by
  unfold replace
  split <;> rfl

/-- Exchanging two cards of a pile keeps its frame. -/
theorem clear_swap? {p swapped : Pile} {a b : CardId} (h : p.swap? a b = some swapped) :
    swapped.clear = p.clear := by
  simp only [swap?, Option.bind_eq_bind, Option.bind_eq_some_iff] at h
  obtain ⟨i, _, j, _, cardA, _, cardB, _, h⟩ := h
  split at h
  · cases h
  · cases h
    rfl

end Pile

/-! ## Moves -/

namespace Board

/-- A change of one pile that keeps the pile's frame keeps the board's. -/
theorem clear_modify {b : Board} {id : PileId} {change : Pile → Pile}
    (h : ∀ p, b.pile? id = some p → (change p).clear = p.clear) :
    (b.modify id change).clear = b.clear := by
  simp only [clear, modify, mk.injEq, and_true]
  refine List.ext_getElem? fun i => ?_
  rw [List.getElem?_map, List.getElem?_map, List.getElem?_modify]
  split
  · subst i
    cases hp : b.piles[id.index]? with
    | none => rfl
    | some p => simp [h p hp]
  · simp

/-- A transfer keeps the frame of the board. -/
theorem clear_transfer {b b' : Board} {source target : PileId} {ids : List CardId}
    (h : b.transfer source target ids = some b') : b'.clear = b.clear := by
  simp only [transfer, Option.bind_eq_bind, Option.bind_eq_some_iff] at h
  obtain ⟨pile, hpile, h⟩ := h
  split at h
  · cases h
  · cases h
    rw [clear_modify fun p _ => p.clear_addAll _, clear_modify fun p _ => p.clear_eraseAll ids]

/-- Moving the topmost card keeps the frame of the board. -/
theorem clear_transferTop {b b' : Board} {source target : PileId}
    (h : b.transferTop source target = some b') : b'.clear = b.clear := by
  simp only [transferTop, Option.bind_eq_bind, Option.bind_eq_some_iff] at h
  obtain ⟨pile, _, card, _, h⟩ := h
  exact clear_transfer h

@[simp] theorem clear_transferAll (b : Board) (source target : PileId) :
    (b.transferAll source target).clear = b.clear := by
  unfold transferAll
  split
  · rfl
  · split
    · rw [clear_modify fun p _ => p.clear_addAll _, clear_modify fun p _ => p.clear_clear]
    · rfl

/-- An exchange keeps the frame of the board, within one pile and between two. -/
theorem clear_exchange {b b' : Board} {a c : PileId} {cardA cardB : CardId}
    (h : b.exchange a c cardA cardB = some b') : b'.clear = b.clear := by
  simp only [exchange, Option.bind_eq_bind, Option.bind_eq_some_iff] at h
  obtain ⟨pileA, hA, pileB, _, h⟩ := h
  split at h
  · cases h
  · split at h
    · obtain ⟨swapped, hswap, h⟩ := Option.bind_eq_some_iff.1 h
      cases h
      refine clear_modify fun p hp => ?_
      rw [hA] at hp
      cases hp
      exact Pile.clear_swap? hswap
    · simp only [Option.bind_eq_some_iff] at h
      obtain ⟨first, _, second, _, h⟩ := h
      cases h
      rw [clear_modify fun p _ => p.clear_replace _ _, clear_modify fun p _ => p.clear_replace _ _]

/-- Taking cards out of play concerns the frame as little as the list of those cards does. -/
theorem clear_withRemoved (b : Board) (cards : List Card) :
    ({ b with removed := cards } : Board).clear = b.clear := rfl

/-- Removing cards keeps the frame of the board. -/
theorem clear_remove {b b' : Board} {source : PileId} {ids : List CardId}
    (h : b.remove source ids = some b') : b'.clear = b.clear := by
  simp only [remove, Option.bind_eq_bind, Option.bind_eq_some_iff] at h
  obtain ⟨pile, _, h⟩ := h
  split at h
  · cases h
  · cases h
    rw [clear_withRemoved, clear_modify fun p _ => p.clear_eraseAll ids]

@[simp] theorem clear_removeAll (b : Board) (source : PileId) :
    (b.removeAll source).clear = b.clear := by
  unfold removeAll
  split
  · rw [clear_withRemoved, clear_modify fun p _ => p.clear_clear]
  · rfl

/-- Emptying several piles keeps the frame of the board. -/
theorem clear_foldl_removeAll (b : Board) (ids : List PileId) :
    (ids.foldl removeAll b).clear = b.clear := by
  induction ids generalizing b with
  | nil => rfl
  | cons id ids ih => rw [List.foldl_cons, ih, clear_removeAll]

@[simp] theorem clear_shuffle (b : Board) (id : PileId) (stream : Stream) :
    (b.shuffle id stream).1.clear = b.clear := by
  unfold shuffle
  split
  next pile hpile =>
    refine clear_modify fun p hp => ?_
    rw [hpile] at hp
    cases hp
    rfl
  next => rfl

end Board

/-! ## Operations -/

namespace Operation

/-- Shuffling several piles keeps the frame of the board. -/
theorem clear_shuffleAll (t : Table) (ids : List PileId) :
    (shuffleAll t ids).board.clear = t.board.clear := by
  unfold shuffleAll
  induction ids generalizing t with
  | nil => rfl
  | cons id ids ih =>
    rw [List.foldl_cons, ih]
    exact Board.clear_shuffle t.board id t.stream

/-- A move that may be refused keeps the frame of the board if the move itself does. -/
theorem clear_moved {t : Table} {b : Option Board}
    (h : ∀ b', b = some b' → b'.clear = t.board.clear) :
    (moved t b).2.board.clear = t.board.clear := by
  cases b with
  | none => rfl
  | some b' => exact h b' rfl

/-- No operation changes the frame of the board. -/
theorem clear_run (ranking : Ranking) (t : Table) (op : Operation) :
    (op.run ranking t).2.board.clear = t.board.clear := by
  cases op with
  | transfer source target cards => exact clear_moved fun _ => Board.clear_transfer
  | transferTop source target => exact clear_moved fun _ => Board.clear_transferTop
  | exchange a b cardA cardB => exact clear_moved fun _ => Board.clear_exchange
  | remove pile card => exact clear_moved fun _ => Board.clear_remove
  | transferAll source target => exact Board.clear_transferAll ..
  | shuffle piles => exact clear_shuffleAll t piles
  | sort pile => exact Board.clear_modify fun p _ => rfl
  | removeAll piles => exact Board.clear_foldl_removeAll t.board piles
  | endTurn =>
    simp only [run, Table.advanceTurn]
    split <;> rfl
  | _ => rfl

end Operation

end HouseRules
