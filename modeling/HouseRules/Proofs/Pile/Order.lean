import Mathlib.Data.Fintype.EquivFin
import HouseRules.Proofs.Ranking

/-!
# Stable orders

To sort cards stably is to put them from the highest down and those of one rank as they lay. Once
every card carries the number of its old place, this leaves nothing open: of two numbered cards one
belongs below the other (`Pile.LiesBelow`), so cards have one stable order
(`Pile.StableOrder.unique`).

A stable order grows card by card. A further card, which lay above all others, belongs above those
that are not lower than it and below those that are (`Pile.StableOrder.insert`). This is what the
rounds of a sort by insertion keep. The cards of a sorted pile are in their stable order too
(`Pile.stableOrder_sort`), and so the two come to the same.

Comparisons are total preorders here, as that of a ranking is (`Ranking.isTotalPreorder_compare`).
-/

namespace HouseRules

open scoped List

/-! ## Comparisons -/

namespace Ranking.IsTotalPreorder

variable {cmp : Card → Card → Ordering} {a b c : Card}

/-- A card is higher than another just when the other is lower than it. -/
theorem gt_iff (h : IsTotalPreorder cmp) : cmp b a = .gt ↔ cmp a b = .lt := by
  rw [h.swap a b, Ordering.swap_eq_gt]

/-- To be of the same rank does not depend on the order of the cards. -/
theorem eq_iff (h : IsTotalPreorder cmp) : cmp b a = .eq ↔ cmp a b = .eq := by
  rw [h.swap a b, Ordering.swap_eq_eq]

/-- What is not lower than something not lower is not lower. -/
theorem ne_lt_trans (h : IsTotalPreorder cmp) (hab : cmp a b ≠ .lt) (hbc : cmp b c ≠ .lt) :
    cmp a c ≠ .lt := by
  rw [ne_eq, ← h.gt_iff] at *
  exact h.trans c b a hbc hab

/-- Of two cards one is not lower than the other. -/
theorem ne_lt_total (h : IsTotalPreorder cmp) (a b : Card) : cmp a b ≠ .lt ∨ cmp b a ≠ .lt := by
  by_cases hab : cmp a b = .lt
  · exact .inr fun hba => by simp [h.gt_iff.2 hab] at hba
  · exact .inl hab

end Ranking.IsTotalPreorder

namespace Pile

open Ranking (IsTotalPreorder)

variable {cmp : Card → Card → Ordering}

/-! ## Numbered cards -/

/-- Which of two cards, each with the number of its old place, belongs below the other: the higher
one, or of two equal ones that which lay below. -/
def LiesBelow (cmp : Card → Card → Ordering) (a b : Card × Nat) : Prop :=
  cmp a.1 b.1 = .gt ∨ cmp a.1 b.1 = .eq ∧ a.2 < b.2

/-- Cards from bottom to top, none lower than one above it. -/
def Descending (cmp : Card → Card → Ordering) (cards : List Card) : Prop :=
  cards.Pairwise fun lower upper => cmp lower upper ≠ .lt

/-- Some cards are in the stable order of others: these, numbered by their places, have been put
each where it belongs. -/
def StableOrder (cmp : Card → Card → Ordering) (cards sorted : List Card) : Prop :=
  ∃ numbered : List (Card × Nat), numbered ~ cards.zipIdx ∧
    numbered.Pairwise (LiesBelow cmp) ∧ numbered.map Prod.fst = sorted

/-- What lies below another card is not lower than it. -/
theorem LiesBelow.ne_lt {a b : Card × Nat} (h : LiesBelow cmp a b) : cmp a.1 b.1 ≠ .lt := by
  obtain h | ⟨h, -⟩ := h <;> simp [h]

/-- Of two numbered cards only one belongs below the other. -/
theorem LiesBelow.asymm (hcmp : IsTotalPreorder cmp) {a b : Card × Nat} (h : LiesBelow cmp a b) :
    ¬ LiesBelow cmp b a := by
  rintro (hgt | ⟨heq, hlt⟩)
  · exact h.ne_lt (hcmp.gt_iff.1 hgt)
  · obtain hgt | ⟨-, hlt'⟩ := h
    · rw [hcmp.eq_iff.1 heq] at hgt
      cases hgt
    · exact Nat.lt_asymm hlt hlt'

namespace StableOrder

variable {cards sorted sorted' : List Card}

/-- No cards are in a stable order. -/
theorem nil : StableOrder cmp [] [] := ⟨[], .refl _, .nil, rfl⟩

/-- No card comes or goes. -/
theorem perm (h : StableOrder cmp cards sorted) : sorted ~ cards := by
  obtain ⟨numbered, hperm, -, rfl⟩ := h
  have := hperm.map Prod.fst
  rwa [List.zipIdx_map_fst] at this

/-- Cards in a stable order descend from bottom to top. -/
theorem descending (h : StableOrder cmp cards sorted) : Descending cmp sorted := by
  obtain ⟨numbered, -, hbelow, rfl⟩ := h
  exact List.pairwise_map.2 (hbelow.imp LiesBelow.ne_lt)

/-- Cards have one stable order. -/
theorem unique (hcmp : IsTotalPreorder cmp) (h : StableOrder cmp cards sorted)
    (h' : StableOrder cmp cards sorted') : sorted = sorted' := by
  obtain ⟨numbered, hperm, hbelow, rfl⟩ := h
  obtain ⟨numbered', hperm', hbelow', rfl⟩ := h'
  congr 1
  exact (hperm.trans hperm'.symm).eq_of_pairwise
    (fun _ _ _ _ hab hba => absurd hba (hab.asymm hcmp)) hbelow hbelow'

/-! ## One more card -/

/-- A further card belongs above those that are not lower and below those that are. -/
theorem insert (hcmp : IsTotalPreorder cmp) {below above : List Card} {card : Card}
    (h : StableOrder cmp cards (below ++ above)) (hbelow : ∀ c ∈ below, cmp c card ≠ .lt)
    (habove : ∀ c ∈ above, cmp c card = .lt) :
    StableOrder cmp (cards ++ [card]) (below ++ card :: above) := by
  obtain ⟨numbered, hperm, hpairs, hmap⟩ := h
  obtain ⟨front, back, rfl, rfl, rfl⟩ := List.map_eq_append_iff.1 hmap
  obtain ⟨hfront, hback, hcross⟩ := List.pairwise_append.1 hpairs
  refine ⟨front ++ (card, cards.length) :: back, ?_, ?_, by simp⟩
  · rw [List.zipIdx_append, Nat.zero_add, List.zipIdx_singleton]
    exact List.perm_middle.trans ((hperm.cons _).trans (List.perm_append_singleton ..).symm)
  · have hlast : ∀ a ∈ front, LiesBelow cmp a (card, cards.length) := by
      intro a ha
      -- The numbers given so far are below that of the further card.
      have hlt : a.2 < cards.length :=
        List.snd_lt_of_mem_zipIdx (hperm.mem_iff.1 (List.mem_append_left _ ha))
      have hne := hbelow a.1 (List.mem_map_of_mem ha)
      cases hcard : cmp a.1 card with
      | lt => exact absurd hcard hne
      | eq => exact .inr ⟨hcard, hlt⟩
      | gt => exact .inl hcard
    have hfirst : ∀ b ∈ back, LiesBelow cmp (card, cards.length) b := fun b hb =>
      .inl (hcmp.gt_iff.2 (habove b.1 (List.mem_map_of_mem hb)))
    refine List.pairwise_append.2
      ⟨hfront, List.pairwise_cons.2 ⟨hfirst, hback⟩, fun a ha b hb => ?_⟩
    rcases List.mem_cons.1 hb with rfl | hb
    · exact hlast a ha
    · exact hcross a ha b hb

/-! ## Places -/

/-- What belongs below stands below. -/
theorem idxOf_lt_of_liesBelow (hcmp : IsTotalPreorder cmp) {numbered : List (Card × Nat)}
    (hpairs : numbered.Pairwise (LiesBelow cmp)) {a b : Card × Nat} (ha : a ∈ numbered)
    (hb : b ∈ numbered) (h : LiesBelow cmp a b) : numbered.idxOf a < numbered.idxOf b := by
  have hla := List.idxOf_lt_length_iff.2 ha
  have hlb := List.idxOf_lt_length_iff.2 hb
  refine Nat.lt_of_le_of_ne (Nat.not_lt.1 fun hlt => ?_) fun heq => ?_
  · have hswapped := List.pairwise_iff_getElem.1 hpairs _ _ hlb hla hlt
    rw [List.getElem_idxOf, List.getElem_idxOf] at hswapped
    exact hswapped.asymm hcmp h
  · obtain rfl := (List.idxOf_inj ha).1 heq
    exact h.asymm hcmp h

/-- Each card has its place in the stable order, and equal ones are still one above the other as
they were. -/
theorem exists_place (hcmp : IsTotalPreorder cmp) (h : StableOrder cmp cards sorted) :
    ∃ place : Equiv.Perm (Fin cards.length),
      (∀ i, sorted[(place i).val]? = some cards[i]) ∧
      ∀ i j, i < j → cmp cards[i] cards[j] = .eq → place i < place j := by
  obtain ⟨numbered, hperm, hpairs, rfl⟩ := h
  have hlength : numbered.length = cards.length := by simpa using hperm.length_eq
  have hmem : ∀ i : Fin cards.length, (cards[i], i.val) ∈ numbered := fun i =>
    hperm.mem_iff.2 (List.mk_mem_zipIdx_iff_getElem?.2 (List.getElem?_eq_getElem i.2))
  let place : Fin cards.length → Fin cards.length := fun i =>
    ⟨numbered.idxOf (cards[i], i.val), hlength ▸ List.idxOf_lt_length_iff.2 (hmem i)⟩
  have hinj : place.Injective := fun i j hij =>
    Fin.ext (congrArg Prod.snd ((List.idxOf_inj (hmem i)).1 (congrArg Fin.val hij)))
  refine ⟨.ofBijective place (Finite.injective_iff_bijective.1 hinj), fun i => ?_,
    fun i j hlt heq => idxOf_lt_of_liesBelow hcmp hpairs (hmem i) (hmem j) (.inr ⟨heq, hlt⟩)⟩
  rw [List.getElem?_map, Equiv.ofBijective_apply, List.getElem?_idxOf (hmem i)]
  rfl

end StableOrder

/-! ## Sorted piles -/

/-- A sort of numbered cards that breaks ties by their numbers puts each where it belongs. -/
theorem liesBelow_of_zipIdxLE (hcmp : IsTotalPreorder cmp) {a b : Card × Nat}
    (h : List.zipIdxLE (fun a b => cmp a b != .lt) a b = true) (hne : a.2 ≠ b.2) :
    LiesBelow cmp a b := by
  unfold List.zipIdxLE at h
  cases hab : cmp a.1 b.1 with
  | lt => simp [hab] at h
  | eq =>
    have hle : a.2 ≤ b.2 := by simpa [hab, hcmp.eq_iff.2 hab] using h
    exact .inr ⟨hab, Nat.lt_of_le_of_ne hle hne⟩
  | gt => exact .inl hab

/-- Sorting puts the cards of a pile in their stable order. -/
theorem stableOrder_sort (hcmp : IsTotalPreorder cmp) (p : Pile) :
    StableOrder cmp p.cards (p.sort cmp).cards := by
  have htrans : ∀ a b c, (cmp a b != .lt) = true → (cmp b c != .lt) = true →
      (cmp a c != .lt) = true := fun a b c hab hbc =>
    bne_iff_ne.2 (hcmp.ne_lt_trans (bne_iff_ne.1 hab) (bne_iff_ne.1 hbc))
  have htotal : ∀ a b, (cmp a b != .lt || cmp b a != .lt) = true := fun a b => by
    simpa using hcmp.ne_lt_total a b
  have hperm := List.mergeSort_perm p.cards.zipIdx (List.zipIdxLE fun a b => cmp a b != .lt)
  refine ⟨_, hperm, ?_, List.mergeSort_zipIdx⟩
  have hpairs := List.pairwise_mergeSort (List.zipIdxLE_trans htrans) (List.zipIdxLE_total htotal)
    p.cards.zipIdx
  have hnumbers := (hperm.map Prod.snd).nodup_iff.2 (by
    rw [List.zipIdx_map_snd]
    exact List.nodup_range')
  exact (hpairs.and (List.pairwise_map.1 hnumbers)).imp fun ⟨hle, hne⟩ =>
    liesBelow_of_zipIdxLE hcmp hle hne

/-- Sorting leaves a pile in order as it is. -/
theorem sort_of_descending {p : Pile} (h : Descending cmp p.cards) : p.sort cmp = p := by
  rw [sort, List.mergeSort_of_pairwise (h.imp bne_iff_ne.2)]

end Pile

end HouseRules
