import Mathlib.Data.List.DropRight
import HouseRules.Proofs.Board.Moves
import HouseRules.Proofs.Pile.Order

/-!
# Sorting by sinking

`Pile.sort` says what order the cards are brought into, and leaves open how. Sorting in place goes
through the pile from the bottom up: each card sinks, changing places with the one below it, as long
as that one is lower. The places are read strictly, so `none` says that one of them is not there.

It never is, and sinking ends with the pile that `Pile.sort` gives (`Pile.sortStrict_eq`). What each
round keeps is that the cards that have had theirs are in stable order, while those above them are
where they were (`foldlM_sinkStrict`). This is said of any comparison that is a total preorder, as
that of a ranking is, so the verb that sorts by rank sorts stably (`Pile.sorts_stably`).

Reference: `CardPile.sort_descending_by` (specification 4.3, E3).
-/

namespace HouseRules

open scoped List

open Ranking (IsTotalPreorder)

/-! ## Sinking -/

section Sink

variable (compare : Card → Card → Ordering)

/-- Sinks the card at a place past all lower ones right below it. -/
def sinkStrict : (place : Nat) → List Card → Option (List Card)
  | 0, cards => some cards
  | i + 1, cards => do
    let below ← cards[i]?
    let card ← cards[i + 1]?
    if compare below card = .lt then
      sinkStrict i ((cards.set i card).set (i + 1) below)
    else return cards

/-- Sorts the pile from the highest card at the bottom, sinking one card after the other. -/
def Pile.sortStrict (p : Pile) : Option Pile := do
  let rounds := List.range' 1 (p.size - 1)
  let cards ← rounds.foldlM (fun cards i => sinkStrict compare i cards) p.cards
  return { p with cards }

/-- Cards with a further one sunk in, past the lower ones at their top. -/
def sunk (cards : List Card) (card : Card) : List Card :=
  cards.rdropWhile (compare · card == .lt) ++ card :: cards.rtakeWhile (compare · card == .lt)

/-- A card sinks past the lower ones. -/
theorem sinkStrict_eq (front : List Card) (card : Card) (rest : List Card) :
    sinkStrict compare front.length (front ++ card :: rest) =
      some (sunk compare front card ++ rest) := by
  induction front using List.reverseRec generalizing rest with
  | nil => rfl
  | append_singleton front below ih =>
    rw [List.length_append, List.length_singleton, List.append_assoc, List.singleton_append,
      sinkStrict]
    have hbelow : (front ++ below :: card :: rest)[front.length]? = some below := by simp
    have hcard : (front ++ below :: card :: rest)[front.length + 1]? = some card := by
      rw [List.getElem?_append_right (by omega), Nat.add_sub_cancel_left]
      rfl
    simp only [hbelow, hcard, Option.bind_eq_bind, Option.bind_some]
    split
    next hlower =>
      have hswapped : ((front ++ below :: card :: rest).set front.length card).set
          (front.length + 1) below = front ++ card :: below :: rest := by
        simp
      rw [hswapped, ih, sunk, sunk, List.rdropWhile_concat_pos _ _ _ (by simp [hlower]),
        List.rtakeWhile_concat_pos _ _ _ (by simp [hlower])]
      simp
    next hnot =>
      rw [sunk, List.rdropWhile_concat_neg _ _ _ (by simp [hnot]),
        List.rtakeWhile_concat_neg _ _ _ (by simp [hnot])]
      simp

variable {compare : Card → Card → Ordering} (hcompare : IsTotalPreorder compare)

include hcompare

/-- Among cards in order, those that a further card does not sink past are not lower than it. -/
theorem ne_lt_of_mem_rdropWhile {cards : List Card} {card c : Card}
    (h : Pile.Descending compare cards) (hc : c ∈ cards.rdropWhile (compare · card == .lt)) :
    compare c card ≠ .lt := by
  have hprefix := h.sublist (List.rdropWhile_prefix (compare · card == .lt) cards).sublist
  rcases List.eq_nil_or_concat' (cards.rdropWhile (compare · card == .lt)) with
    hnone | ⟨init, last, hinit⟩
  · rw [hnone] at hc
    cases hc
  · -- The search stopped at the last of them, and the others lie below that one.
    have hlast : compare last card ≠ .lt := by
      have := List.rdropWhile_last_not (compare · card == .lt) cards (List.ne_nil_of_mem hc)
      simpa [hinit] using this
    rw [hinit] at hc hprefix
    rcases List.mem_append.1 hc with hc | hc
    · exact hcompare.ne_lt_trans ((List.pairwise_append.1 hprefix).2.2 c hc last (by simp)) hlast
    · rwa [List.mem_singleton.1 hc]

/-- A card that sinks comes to lie where it belongs. -/
theorem stableOrder_sunk {cards sorted : List Card} (h : Pile.StableOrder compare cards sorted)
    (card : Card) : Pile.StableOrder compare (cards ++ [card]) (sunk compare sorted card) := by
  have hdescending := h.descending
  rw [← List.rdropWhile_append_rtakeWhile (p := (compare · card == .lt)) (l := sorted)] at h
  refine h.insert hcompare (fun c => ne_lt_of_mem_rdropWhile hcompare hdescending) fun c hc => ?_
  have hlower := List.mem_rtakeWhile_imp hc
  exact beq_iff_eq.1 hlower

/-- After `n` rounds the cards that have had theirs, and the lowest one, are in stable order, and
the others are where they were. -/
theorem foldlM_sinkStrict {cards : List Card} {n : Nat} (hn : n < cards.length) :
    ∃ sorted, Pile.StableOrder compare (cards.take (n + 1)) sorted ∧
      (List.range' 1 n).foldlM (fun cards i => sinkStrict compare i cards) cards =
        some (sorted ++ cards.drop (n + 1)) := by
  induction n with
  | zero =>
    cases cards with
    | nil => cases hn
    | cons card cards => exact ⟨[card], stableOrder_sunk hcompare .nil card, rfl⟩
  | succ n ih =>
    obtain ⟨sorted, hsorted, hfold⟩ := ih (Nat.lt_of_succ_lt hn)
    refine ⟨sunk compare sorted cards[n + 1], ?_, ?_⟩
    · rw [List.take_succ_eq_append_getElem hn]
      exact stableOrder_sunk hcompare hsorted _
    · have hlength : sorted.length = n + 1 := by
        rw [hsorted.perm.length_eq, List.length_take, Nat.min_eq_left (Nat.le_of_lt hn)]
      have hsink := sinkStrict_eq compare sorted cards[n + 1] (cards.drop (n + 1 + 1))
      rw [hlength] at hsink
      rw [List.range'_concat, List.foldlM_append, hfold, List.drop_eq_getElem_cons hn]
      simpa only [Option.bind_eq_bind, Option.bind_some, List.foldlM_cons, List.foldlM_nil,
        Option.bind_fun_some, Option.pure_def, Nat.one_mul, Nat.add_comm 1 n] using hsink

/-- Sinking one card after the other ends, every place is there, and the cards are in stable
order. -/
theorem Pile.exists_sortStrict (p : Pile) : ∃ sorted,
    p.sortStrict compare = some { p with cards := sorted } ∧
      StableOrder compare p.cards sorted := by
  unfold sortStrict
  cases hcards : p.cards with
  | nil => exact ⟨[], by simp [size, hcards], .nil⟩
  | cons card cards =>
    have hn : cards.length < (card :: cards).length := Nat.lt_succ_self _
    obtain ⟨sorted, hsorted, hfold⟩ := foldlM_sinkStrict hcompare hn
    refine ⟨sorted, ?_, by simpa using hsorted⟩
    simp [size, hcards, hfold]

/-- Sinking one card after the other sorts the pile, and every place is there. -/
theorem Pile.sortStrict_eq (p : Pile) : p.sortStrict compare = some (p.sort compare) := by
  obtain ⟨sorted, hsort, hstable⟩ := p.exists_sortStrict hcompare
  rw [hsort, hstable.unique hcompare (stableOrder_sort hcompare p)]
  rfl

end Sink

/-! ## Sorted piles -/

namespace Pile

/-- The second pile is the first one sorted. -/
structure SortsTo (compare : Card → Card → Ordering) (p q : Pile) : Prop where
  /-- Sinking one card after the other comes to an end with this pile. -/
  ends : p.sortStrict compare = some q
  frame : q.clear = p.clear
  perm : q.cards ~ p.cards
  descending : Descending compare q.cards
  /-- Every card has moved to a place of its own, and of two equal ones that which lay below still
  does. -/
  stable : ∃ place : Equiv.Perm (Fin p.cards.length),
    (∀ i, q.cards[(place i).val]? = some p.cards[i]) ∧
    ∀ i j, i < j → compare p.cards[i] p.cards[j] = .eq → place i < place j
  unchanged : Descending compare p.cards → q = p

/-- A pile that is sorted at once is one that sorting step by step comes to. -/
theorem sortsTo_sort {compare : Card → Card → Ordering} (hcompare : IsTotalPreorder compare)
    (p : Pile) : p.SortsTo compare (p.sort compare) :=
  have hstable := stableOrder_sort hcompare p
  { ends := sortStrict_eq hcompare p
    frame := rfl
    perm := hstable.perm
    descending := hstable.descending
    stable := hstable.exists_place hcompare
    unchanged := sort_of_descending }

/-- The verb that sorts by rank puts the sorted pile in the place of the pile. -/
theorem dispatch_sortByRank {r : Ranking} {phases : Nat} {t : Table} {id : PileId} {p : Pile}
    (h : t.board.pile? id = some p) :
    Operation.dispatch ⟨.sortByRank, [.pile id]⟩ r phases t =
      .ok (.bool true, { t with board := t.board.modify id fun _ => p.sort r.compare }) := by
  have hbelongs : id.index < t.board.size := (List.getElem?_eq_some_iff.1 h).1
  have hprepare : Operation.prepare ⟨.sortByRank, [.pile id]⟩ t phases = .ok (.sort id) :=
    Operation.prepare_ok.2 ⟨Nat.le_refl 1, by simpa [Value.belongs] using hbelongs, rfl⟩
  rw [Operation.dispatch_of_prepare _ hprepare, Operation.run,
    Board.modify_eq_of_pile? h (·.sort r.compare)]

/-- **Sorting is stable.** Under every comparison that is a total preorder every pile is sorted, and
the verb that sorts by rank, which changes nothing else, sorts a pile under the ranking. -/
theorem sorts_stably :
    (∀ compare, IsTotalPreorder compare → ∀ p : Pile, p.SortsTo compare (p.sort compare)) ∧
      ∀ (r : Ranking) (phases : Nat) (t : Table) (id : PileId) (p : Pile),
        t.board.pile? id = some p → ∃ q, p.SortsTo r.compare q ∧
          Operation.dispatch ⟨.sortByRank, [.pile id]⟩ r phases t =
            .ok (.bool true, { t with board := t.board.modify id fun _ => q }) :=
  ⟨fun _ => sortsTo_sort, fun r _ _ _ p h =>
    ⟨p.sort r.compare, sortsTo_sort r.isTotalPreorder_compare p, dispatch_sortByRank h⟩⟩

/-- A pile with two nines, one below and one above a five. -/
def twoNines : Pile :=
  ⟨"hand", ⟨0⟩, none, {}, [⟨0, "2", none⟩, ⟨1, "9", none⟩, ⟨2, "5", none⟩, ⟨3, "9", none⟩]⟩

/-- A table with this pile only. -/
def twoNinesTable : Table := .fresh ⟨[twoNines], []⟩ [.seated "ann" []] .clockwise (.ofSeed 0)

/-- The nines go to the bottom, and the one that lay below still does, whether faces are compared as
texts or by a ranking that lists nines and then fives. -/
theorem twoNines_sorts_stably :
    ∃ q : Pile, q.cards.map (·.id) = [1, 3, 2, 0] ∧
      IsTotalPreorder (fun a b => compare a.face b.face) ∧
      twoNines.SortsTo (fun a b => compare a.face b.face) q ∧
      twoNinesTable.board.pile? ⟨0⟩ = some twoNines ∧
      Operation.dispatch ⟨.sortByRank, [.pile ⟨0⟩]⟩ ⟨[("9", 2), ("5", 1)], []⟩ 0 twoNinesTable =
        .ok (.bool true, { twoNinesTable with board := ⟨[q], []⟩ }) := by
  have hfaces : IsTotalPreorder fun a b => compare a.face b.face :=
    { refl := fun _ => Std.ReflOrd.compare_self
      swap := fun _ _ => Std.OrientedOrd.eq_swap
      trans := fun _ _ _ hab hbc => Ordering.isLE_iff_ne_gt.1 <|
        Std.TransOrd.isLE_trans (Ordering.isLE_iff_ne_gt.2 hab) (Ordering.isLE_iff_ne_gt.2 hbc) }
  have hsorted := sorts_stably.1 _ hfaces twoNines
  obtain ⟨q, hq, hdispatch⟩ :=
    sorts_stably.2 ⟨[("9", 2), ("5", 1)], []⟩ 0 twoNinesTable ⟨0⟩ twoNines rfl
  let sorted : Pile := { twoNines with
    cards := [⟨1, "9", none⟩, ⟨3, "9", none⟩, ⟨2, "5", none⟩, ⟨0, "2", none⟩] }
  have hface : twoNines.sort (fun a b => compare a.face b.face) = sorted :=
    Option.some.inj (hsorted.ends.symm.trans (by decide))
  have hrank : q = sorted := Option.some.inj (hq.ends.symm.trans (by decide))
  exact ⟨sorted, rfl, hfaces, hface ▸ hsorted, rfl, hrank ▸ hdispatch⟩

end Pile

end HouseRules
