import Mathlib.Data.List.Nodup
import HouseRules.Pile

/-!
# Cards by number and by place

A card is asked for by its number and stands at a place. The first card of a number is the one that
`Pile.card?` finds and its place is the one that `Pile.position?` gives; where no two cards of a
pile have one number, numbers and places are one to one (`Pile.position?_of_getElem?`).

Of single cards, a pile offers those that may be taken (`Pile.mem_removable`), which are there and,
under the policy for topmost cards, on top (`Pile.mem_removable_of_getElem?`).
-/

namespace HouseRules.Pile

variable {p : Pile} {c : Card} {id : CardId} {i : Nat}

/-! ## Places -/

/-- A card is in the pile when there is one of its number. -/
theorem contains_iff {p : Pile} {id : CardId} :
    p.contains id = true ↔ ∃ card, p.card? id = some card := by
  rw [← Option.isSome_iff_exists, card?, List.find?_isSome, contains, List.any_eq_true]

/-- A pile contains a card when one of its cards has the number. -/
theorem contains_iff_exists : p.contains id = true ↔ ∃ card ∈ p.cards, card.id = id := by
  simp [contains]

/-- The card of a number stands at its position. -/
theorem exists_position? {p : Pile} {id : CardId} {card : Card} (h : p.card? id = some card) :
    ∃ i, p.position? id = some i ∧ p.cards[i]? = some card := by
  rw [card?, List.find?_eq_bind_findIdx?_getElem?, Option.bind_eq_some_iff] at h
  exact h

/-- At the position of a card lies a card of its number. -/
theorem position?_spec {id : CardId} {i : Nat} (h : p.position? id = some i) :
    ∃ card, p.cards[i]? = some card ∧ card.id = id := by
  obtain ⟨hi, hid, -⟩ := List.findIdx?_eq_some_iff_getElem.1 h
  exact ⟨p.cards[i], List.getElem?_eq_getElem hi, beq_iff_eq.1 hid⟩

/-- The position of a card is one in the pile. -/
theorem position?_lt {id : CardId} {i : Nat} (h : p.position? id = some i) : i < p.size := by
  obtain ⟨card, hcard, -⟩ := position?_spec h
  exact (List.getElem?_eq_some_iff.1 hcard).1

/-- Cards of different numbers have different places. -/
theorem position?_inj {a b : CardId} {i : Nat} (ha : p.position? a = some i)
    (hb : p.position? b = some i) : a = b := by
  obtain ⟨card, hcard, rfl⟩ := position?_spec ha
  obtain ⟨card', hcard', rfl⟩ := position?_spec hb
  rw [hcard] at hcard'
  cases hcard'
  rfl

/-- A card has no position exactly if the pile does not contain it. -/
theorem position?_eq_none {id : CardId} : p.position? id = none ↔ p.contains id = false := by
  simp [position?, contains]

/-- Every card that the pile contains has a position. -/
theorem exists_position?_of_contains {id : CardId} (h : p.contains id = true) :
    ∃ i, p.position? id = some i := by
  rw [← Option.isSome_iff_exists, Option.isSome_iff_ne_none, Ne, position?_eq_none, h]
  exact Bool.noConfusion

/-- A card is found at its place where no two cards have one number. -/
theorem position?_of_getElem? (hdistinct : (p.cards.map (·.id)).Nodup)
    (h : p.cards[i]? = some c) : p.position? c.id = some i := by
  obtain ⟨hlt, hget⟩ := List.getElem?_eq_some_iff.1 h
  refine List.findIdx?_eq_some_iff_getElem.2 ⟨hlt, by simp [hget], fun j hj heq => ?_⟩
  -- An earlier card of this number would be a second one.
  have hid : p.cards[j].id = p.cards[i].id := by simpa [hget] using heq
  have hpairs := List.pairwise_map.1 hdistinct
  exact List.pairwise_iff_getElem.1 hpairs j i (Nat.lt_trans hj hlt) hlt hj hid

/-- The topmost card is found at the top. -/
theorem position?_top {card : Card} (hdistinct : (p.cards.map (·.id)).Nodup)
    (htop : p.top? = some card) : p.position? card.id = some (p.size - 1) := by
  refine position?_of_getElem? hdistinct ?_
  rw [← htop, top?, List.getLast?_eq_getElem?, size]

/-- A card is found under its number where no two cards have one. -/
theorem card?_of_mem (hdistinct : (p.cards.map (·.id)).Nodup) (hc : c ∈ p.cards) :
    p.card? c.id = some c := by
  obtain ⟨e, he⟩ := contains_iff.1 (List.any_eq_true.2 ⟨c, hc, beq_self_eq_true c.id⟩)
  have hfind : p.cards.find? (·.id == c.id) = some e := he
  have hid : e.id = c.id := by simpa using List.find?_some hfind
  rw [he, List.inj_on_of_nodup_map hdistinct (List.mem_of_find?_eq_some hfind) hc hid]

/-! ## Single cards that may be taken -/

/-- A single card may be taken if the pile contains it and permits taking it. -/
theorem canTake_single {id : CardId} :
    p.canTake [id] = true ↔ p.contains id = true ∧ p.permitsTaking [id] = true := by
  simp [canTake]

/-- A pile that gives up its topmost cards gives up, of single cards, the topmost one. -/
theorem permitsTaking_top (hpolicy : p.policy.removal = .top)
    (hdistinct : (p.cards.map (·.id)).Nodup) (hc : c ∈ p.cards) :
    p.permitsTaking [c.id] = true ↔ p.top? = some c := by
  obtain ⟨i, hi, hget⟩ := exists_position? (card?_of_mem hdistinct hc)
  have hlt : i < p.size := (List.getElem?_eq_some_iff.1 hget).1
  simp only [permitsTaking, hpolicy, List.all_cons, List.all_nil, Bool.and_true, hi,
    Option.getD_some, List.length_singleton, decide_eq_true_eq]
  constructor
  · intro hle
    obtain rfl : i = p.size - 1 := by omega
    rw [top?, List.getLast?_eq_getElem?]
    exact hget
  · intro htop
    have hlast := position?_top hdistinct htop
    rw [hi] at hlast
    cases hlast
    omega

/-- The cards that a pile offers one at a time are those of its cards that may be taken. -/
theorem mem_removable (hdistinct : (p.cards.map (·.id)).Nodup) :
    c ∈ p.removable ↔ c ∈ p.cards ∧ p.permitsTaking [c.id] = true := by
  unfold removable
  cases hpolicy : p.policy.removal with
  | any => simp [permitsTaking, hpolicy]
  | top =>
    simp only [Option.mem_toList]
    constructor
    · intro htop
      have hc := List.mem_of_getLast? htop
      exact ⟨hc, (permitsTaking_top hpolicy hdistinct hc).2 htop⟩
    · rintro ⟨hc, hpermits⟩
      exact (permitsTaking_top hpolicy hdistinct hc).1 hpermits
  | none => simp [permitsTaking, hpolicy]

/-- A pile gives up the card of a number by itself if it offers it. -/
theorem canTake_single_iff (hdistinct : (p.cards.map (·.id)).Nodup) :
    p.canTake [id] = true ↔ ∃ card ∈ p.removable, card.id = id := by
  rw [canTake_single, contains_iff_exists]
  constructor
  · rintro ⟨⟨card, hcard, rfl⟩, hpermits⟩
    exact ⟨card, (mem_removable hdistinct).2 ⟨hcard, hpermits⟩, rfl⟩
  · rintro ⟨card, hcard, rfl⟩
    obtain ⟨hcard, hpermits⟩ := (mem_removable hdistinct).1 hcard
    exact ⟨⟨card, hcard, rfl⟩, hpermits⟩

/-- Whether a card is offered depends on the policy and on its place. -/
theorem mem_removable_of_getElem? (hdistinct : (p.cards.map (·.id)).Nodup)
    (h : p.cards[i]? = some c) :
    c ∈ p.removable ↔
      p.policy.removal = .any ∨ p.policy.removal = .top ∧ p.cards[i + 1]? = none := by
  have hlt : i < p.size := (List.getElem?_eq_some_iff.1 h).1
  have hlast : p.cards[i + 1]? = none ↔ p.size ≤ i + 1 := List.getElem?_eq_none_iff
  unfold removable
  cases hpolicy : p.policy.removal with
  | any => simp [List.mem_of_getElem? h]
  | top =>
    simp only [Option.mem_toList, reduceCtorEq, false_or, true_and, hlast]
    constructor
    · intro htop
      have hplace := position?_of_getElem? hdistinct h
      rw [position?_top hdistinct htop, Option.some.injEq] at hplace
      omega
    · intro hle
      rw [top?, List.getLast?_eq_getElem?, ← size, ← h]
      congr 1
      omega
  | none => simp

/-- No card is offered twice. -/
theorem nodup_removable (h : p.cards.Nodup) : p.removable.Nodup := by
  unfold removable
  split
  · exact h
  · cases p.top? <;> simp
  · exact List.nodup_nil

end HouseRules.Pile
