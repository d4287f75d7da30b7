import Mathlib.Data.Nat.PSub
import HouseRules.Proofs.Operation.InPlace

/-!
# Piles and boards read strictly

A card is found by its number and moved by its place, and a pile by its number on the board. Here
are the functions that move cards once more, read strictly: where a card or a pile is taken by its
place, the place has to be there, and where one length is taken from another, it must not be the
greater one. `none` says that this has gone wrong, and is not to be confused with a move that is
refused.

It never goes wrong. Each strict function comes to what the plain one answers: for piles always
(`Pile.canTakeStrict_eq`, `Pile.takeEachStrict_eq`), for boards as long as the piles that are named
are on the board (`Board.transferStrict_eq`).
-/

namespace HouseRules

open Chance (Stream)

/-! ## Piles -/

namespace Pile

variable {p : Pile}

/-- The places of some cards after those in `places`; nothing if a card is not there, or is at a
place that is taken. -/
def placesFrom (p : Pile) (places : List Nat) : List CardId → Option (List Nat)
  | [] => some places
  | id :: ids =>
    match p.position? id with
    | some i => if places.contains i then none else p.placesFrom (places ++ [i]) ids
    | none => none

/-- `Pile.canTake`, read strictly: under the policy for topmost cards the lowest place that may be
taken is a difference of lengths. -/
def canTakeStrict (p : Pile) (ids : List CardId) : Option Bool :=
  match p.placesFrom [] ids with
  | none => some false
  | some places =>
    match p.policy.removal with
    | .any => some true
    | .top => do
      let floor ← p.size.psub places.length
      return places.all (floor ≤ ·)
    | .none => some ids.isEmpty

/-- Takes a card from its place, if it has one. -/
def takeStrict (p : Pile) (id : CardId) : Option (Option Card × Pile) :=
  match p.position? id with
  | some i => do
    let card ← p.cards[i]?
    return (some card, { p with cards := p.cards.eraseIdx i })
  | none => some (none, p)

/-- Takes some cards, one after the other. -/
def takeEachStrict (p : Pile) : List CardId → Option (List Card × Pile)
  | [] => some ([], p)
  | id :: ids => do
    let (card, p) ← p.takeStrict id
    let (cards, p) ← p.takeEachStrict ids
    return (card.toList ++ cards, p)

/-- Puts another card in the place of one. -/
def replaceStrict (p : Pile) (id : CardId) (card : Card) : Option Pile :=
  match p.position? id with
  | some i => do
    let _ ← p.cards[i]?
    return { p with cards := p.cards.set i card }
  | none => some p

/-- Exchanges two cards of the pile; `some none` if they are not there or are one. -/
def swapStrict (p : Pile) (a b : CardId) : Option (Option Pile) :=
  match p.position? a, p.position? b with
  | some i, some j =>
    if i = j then some none
    else do
      let cardA ← p.cards[i]?
      let cardB ← p.cards[j]?
      return some { p with cards := (p.cards.set i cardB).set j cardA }
  | _, _ => some none

/-! ### Places -/

/-- The places of cards are found when the cards are there, each named once, at places that are
not taken. -/
theorem placesFrom_eq_some {places out : List Nat} {ids : List CardId} :
    p.placesFrom places ids = some out ↔
      (∀ id ∈ ids, p.contains id = true) ∧ ids.Nodup ∧
        (∀ id ∈ ids, ∀ i ∈ places, p.position? id ≠ some i) ∧
        out = places ++ ids.filterMap p.position? := by
  induction ids generalizing places with
  | nil =>
    constructor
    · rintro ⟨⟩
      simp
    · rintro ⟨-, -, -, rfl⟩
      simp [placesFrom]
  | cons id ids ih =>
    rw [placesFrom]
    split
    next i hi =>
      have hcontains : p.contains id = true := by
        cases hc : p.contains id with
        | true => rfl
        | false =>
          rw [position?_eq_none.2 hc] at hi
          cases hi
      rw [List.filterMap_cons_some hi]
      simp only [List.mem_cons, forall_eq_or_imp, List.nodup_cons, hcontains, true_and, hi]
      split
      next htaken =>
        simp only [List.contains_iff_mem] at htaken
        exact ⟨nofun, fun h => absurd rfl (h.2.2.1.1 i htaken)⟩
      next hfree =>
        simp only [List.contains_iff_mem] at hfree
        rw [ih]
        simp only [List.mem_append, List.mem_singleton, List.append_assoc, List.singleton_append]
        constructor
        · rintro ⟨hall, hnodup, hplaces, rfl⟩
          refine ⟨hall, ⟨fun hmem => hplaces id hmem i (.inr rfl) hi, hnodup⟩, ⟨?_, ?_⟩, rfl⟩
          · rintro j hj ⟨⟩
            exact hfree hj
          · exact fun other hother j hj => hplaces other hother j (.inl hj)
        · rintro ⟨hall, ⟨hnew, hnodup⟩, ⟨-, hplaces⟩, rfl⟩
          refine ⟨hall, hnodup, ?_, rfl⟩
          rintro other hother j (hj | rfl) heq
          · exact hplaces other hother j hj heq
          · exact hnew (position?_inj heq hi ▸ hother)
    next hnone =>
      refine ⟨nofun, fun h => ?_⟩
      rw [position?_eq_none, h.1 id List.mem_cons_self] at hnone
      cases hnone

/-- Different places are no more than there are cards. -/
theorem length_filterMap_position?_le {ids : List CardId} (hnodup : ids.Nodup) :
    (ids.filterMap p.position?).length ≤ p.size := by
  have hplaces : (ids.filterMap p.position?).Nodup :=
    hnodup.filterMap fun _ _ _ ha hb => position?_inj ha hb
  have hsub : ids.filterMap p.position? ⊆ List.range p.size := fun i hi => by
    obtain ⟨id, -, hid⟩ := List.mem_filterMap.1 hi
    exact List.mem_range.2 (position?_lt hid)
  simpa using (List.subperm_of_subset hplaces hsub).length_le

/-- Cards that are there have as many places. -/
theorem length_filterMap_position? {ids : List CardId} (h : ∀ id ∈ ids, p.contains id = true) :
    (ids.filterMap p.position?).length = ids.length :=
  List.filterMap_length_eq_length.2 fun id hid =>
    Option.isSome_iff_exists.2 (exists_position?_of_contains (h id hid))

/-! ### Taking and putting -/

/-- Whether cards may be taken is found out without going below zero. -/
theorem canTakeStrict_eq (p : Pile) (ids : List CardId) :
    p.canTakeStrict ids = some (p.canTake ids) := by
  unfold canTakeStrict canTake
  cases hplaces : p.placesFrom [] ids with
  | none =>
    -- Some card is not there or named twice, so the plain check fails as well.
    have hrefused : (ids.all p.contains && decide ids.Nodup) = false := by
      by_contra hne
      simp only [Bool.not_eq_false, Bool.and_eq_true, List.all_eq_true, decide_eq_true_eq] at hne
      have hsome : p.placesFrom [] ids = some _ :=
        placesFrom_eq_some.2 ⟨hne.1, hne.2, nofun, rfl⟩
      rw [hplaces] at hsome
      cases hsome
    rw [hrefused, Bool.false_and]
  | some places =>
    obtain ⟨hcontains, hnodup, -, rfl⟩ := placesFrom_eq_some.1 hplaces
    have hall : ids.all p.contains = true := List.all_eq_true.2 hcontains
    simp only [hall, hnodup, decide_true, Bool.true_and, List.nil_append, permitsTaking]
    cases p.policy.removal with
    | any => rfl
    | none => rfl
    | top =>
      rw [Nat.psub_eq_sub (length_filterMap_position?_le hnodup),
        length_filterMap_position? hcontains]
      refine congrArg some ?_
      rw [Bool.eq_iff_iff, List.all_eq_true, List.all_eq_true]
      simp only [List.mem_filterMap, decide_eq_true_eq]
      constructor
      · intro h id hid
        obtain ⟨i, hi⟩ := exists_position?_of_contains (hcontains id hid)
        have := h i ⟨id, hid, hi⟩
        rw [hi, Option.getD_some]
        omega
      · rintro h i ⟨id, hid, hi⟩
        have := h id hid
        rw [hi, Option.getD_some] at this
        omega

/-- A card is taken from the place where it is. -/
theorem takeStrict_eq (p : Pile) (id : CardId) : p.takeStrict id = some (p.take id) := by
  unfold takeStrict take erase
  rw [List.eraseP_eq_eraseIdx]
  cases hi : p.position? id with
  | none =>
    have hcard : p.card? id = none := by
      rw [← Option.not_isSome_iff_eq_none, Option.isSome_iff_exists, ← contains_iff,
        position?_eq_none.1 hi]
      exact Bool.noConfusion
    rw [hcard, show p.cards.findIdx? (·.id == id) = none from hi]
  | some i =>
    obtain ⟨card, hcard⟩ := contains_iff.1 (Bool.eq_true_of_not_eq_false fun hc => by
      rw [position?_eq_none.2 hc] at hi
      cases hi)
    obtain ⟨j, hj, hget⟩ := exists_position? hcard
    rw [hi] at hj
    cases hj
    rw [hcard, show p.cards.findIdx? (·.id == id) = some i from hi]
    simp [hget]

/-- Cards named once are taken one after the other. -/
theorem takeEachStrict_eq {ids : List CardId} (hnodup : ids.Nodup) :
    p.takeEachStrict ids = some (ids.filterMap p.card?, p.eraseAll ids) := by
  induction ids generalizing p with
  | nil => rfl
  | cons id ids ih =>
    obtain ⟨hnew, hnodup⟩ := List.nodup_cons.1 hnodup
    rw [takeEachStrict, takeStrict_eq, filterMap_card?_cons, ← filterMap_card?_erase hnew]
    simp only [Option.bind_eq_bind, Option.bind_some, take, ih hnodup, Option.pure_def]
    rfl

/-- A card is put in the place of another. -/
theorem replaceStrict_eq (p : Pile) (id : CardId) (card : Card) :
    p.replaceStrict id card = some (p.replace id card) := by
  unfold replaceStrict replace
  cases hi : p.position? id with
  | none => rfl
  | some i =>
    obtain ⟨old, hold, -⟩ := position?_spec hi
    simp [hold]

/-- Two cards are exchanged. -/
theorem swapStrict_eq (p : Pile) (a b : CardId) : p.swapStrict a b = some (p.swap? a b) := by
  unfold swapStrict swap?
  split
  next i j hi hj =>
    obtain ⟨cardA, hA, -⟩ := position?_spec hi
    obtain ⟨cardB, hB, -⟩ := position?_spec hj
    simp only [hi, hj, hA, hB, Option.bind_eq_bind, Option.bind_some, beq_iff_eq]
    split <;> rfl
  next hnone =>
    cases hi : p.position? a with
    | none => rfl
    | some i =>
      cases hj : p.position? b with
      | none => rfl
      | some j => exact absurd hj (hnone i j hi)

end Pile

/-! ## Boards -/

namespace Board

/-- `Board.transfer`, read strictly; `some none` is a refused move. -/
def transferStrict (b : Board) (source target : PileId) (ids : List CardId) :
    Option (Option Board) :=
  if ids.isEmpty then some none
  else do
    let pile ← b.pile? source
    let free ← pile.canTakeStrict ids
    if !free then return none
    let (cards, pile) ← pile.takeEachStrict ids
    let b := b.modify source fun _ => pile
    let goal ← b.pile? target
    return some (b.modify target fun _ => cards.foldl Pile.add goal)

/-- `Board.transferTop`, read strictly. -/
def transferTopStrict (b : Board) (source target : PileId) : Option (Option Board) := do
  let pile ← b.pile? source
  match pile.top? with
  | some card => b.transferStrict source target [card.id]
  | none => return none

/-- `Board.transferAll`, read strictly. -/
def transferAllStrict (b : Board) (source target : PileId) : Option Board :=
  if source = target then some b
  else do
    let pile ← b.pile? source
    let b := b.modify source fun _ => pile.clear
    let goal ← b.pile? target
    return b.modify target fun _ => pile.cards.foldl Pile.add goal

/-- `Board.exchange`, read strictly. -/
def exchangeStrict (b : Board) (a b' : PileId) (cardA cardB : CardId) : Option (Option Board) := do
  let pileA ← b.pile? a
  let freeA ← pileA.canTakeStrict [cardA]
  if !freeA then return none
  let pileB ← b.pile? b'
  let freeB ← pileB.canTakeStrict [cardB]
  if !freeB then return none
  if a = b' then
    let swapped ← pileA.swapStrict cardA cardB
    return swapped.map fun pile => b.modify a fun _ => pile
  else
    match pileA.card? cardA, pileB.card? cardB with
    | some first, some second => do
      let pileA ← pileA.replaceStrict cardA second
      let b := b.modify a fun _ => pileA
      let pileB ← b.pile? b'
      let pileB ← pileB.replaceStrict cardB first
      return some (b.modify b' fun _ => pileB)
    | _, _ => return none

/-- `Board.remove`, read strictly. -/
def removeStrict (b : Board) (source : PileId) (ids : List CardId) : Option (Option Board) :=
  if ids.isEmpty then some none
  else do
    let pile ← b.pile? source
    let free ← pile.canTakeStrict ids
    if !free then return none
    let (cards, pile) ← pile.takeEachStrict ids
    let b := b.modify source fun _ => pile
    return some { b with removed := b.removed ++ cards }

/-- `Board.removeAll`, read strictly. -/
def removeAllStrict (b : Board) (source : PileId) : Option Board := do
  let pile ← b.pile? source
  let b := b.modify source fun _ => pile.clear
  return { b with removed := b.removed ++ pile.cards }

/-- `Board.shuffle`, read strictly. -/
def shuffleStrict (b : Board) (id : PileId) (stream : Stream) : Option (Board × Stream) := do
  let pile ← b.pile? id
  let (shuffled, stream) := pile.shuffle stream
  return (b.modify id fun _ => shuffled, stream)

variable {b : Board} {source target : PileId}

/-- A pile that is on the board is there after another one has changed. -/
theorem exists_pile?_modify (source : PileId) (h : target.index < b.size) (change : Pile → Pile) :
    ∃ q, (b.modify source change).pile? target = some q :=
  exists_pile? (by rwa [size_modify])

/-- A transfer between piles of the board takes cards that are there. -/
theorem transferStrict_eq (hsource : source.index < b.size) (htarget : target.index < b.size)
    (ids : List CardId) :
    b.transferStrict source target ids = some (b.transfer source target ids) := by
  obtain ⟨p, hp⟩ := exists_pile? hsource
  unfold transferStrict transfer
  simp only [hp, Option.bind_eq_bind, Option.bind_some, Pile.canTakeStrict_eq]
  cases hempty : ids.isEmpty with
  | true => rfl
  | false =>
    cases htake : p.canTake ids with
    | false => rfl
    | true =>
      have hnodup : ids.Nodup := Pile.nodup_of_canTake (p := p) (by simp [hempty, htake])
      obtain ⟨q, hq⟩ := exists_pile?_modify source htarget fun _ => p.eraseAll ids
      simp only [Bool.false_eq_true, if_false, Bool.not_true, Option.bind_some, Bool.or_false,
        Pile.takeEachStrict_eq hnodup, hq, Option.pure_def]
      rw [modify_eq_of_pile? hp (·.eraseAll ids), modify_eq_of_pile? hq (·.addAll _),
        Pile.foldl_add]

/-- A transfer from the top between piles of the board takes a card that is there. -/
theorem transferTopStrict_eq (hsource : source.index < b.size) (htarget : target.index < b.size) :
    b.transferTopStrict source target = some (b.transferTop source target) := by
  obtain ⟨p, hp⟩ := exists_pile? hsource
  unfold transferTopStrict transferTop
  simp only [hp, Option.bind_eq_bind, Option.bind_some]
  cases p.top? with
  | none => rfl
  | some card => exact transferStrict_eq hsource htarget [card.id]

/-- A transfer of everything between piles of the board takes piles that are there. -/
theorem transferAllStrict_eq (hsource : source.index < b.size) (htarget : target.index < b.size) :
    b.transferAllStrict source target = some (b.transferAll source target) := by
  obtain ⟨p, hp⟩ := exists_pile? hsource
  unfold transferAllStrict transferAll
  split
  · rfl
  · obtain ⟨q, hq⟩ := exists_pile?_modify source htarget fun _ => p.clear
    simp only [hp, hq, Option.bind_eq_bind, Option.bind_some, Option.pure_def]
    rw [modify_eq_of_pile? hp Pile.clear, modify_eq_of_pile? hq (·.addAll _), Pile.foldl_add]

/-- An exchange between piles of the board takes cards that are there. -/
theorem exchangeStrict_eq {c : PileId} (hsource : source.index < b.size)
    (htarget : c.index < b.size) (cardA cardB : CardId) :
    b.exchangeStrict source c cardA cardB = some (b.exchange source c cardA cardB) := by
  obtain ⟨p, hp⟩ := exists_pile? hsource
  obtain ⟨q, hq⟩ := exists_pile? htarget
  unfold exchangeStrict exchange
  simp only [hp, hq, Option.bind_eq_bind, Option.bind_some, Pile.canTakeStrict_eq]
  cases p.canTake [cardA] with
  | false => rfl
  | true =>
    cases q.canTake [cardB] with
    | false => rfl
    | true =>
      simp only [Bool.not_true, Bool.false_eq_true, if_false, Bool.or_self, Pile.swapStrict_eq,
        Option.bind_some]
      split
      · cases p.swap? cardA cardB <;> rfl
      next hne =>
        cases p.card? cardA with
        | none => rfl
        | some first =>
          cases q.card? cardB with
          | none => rfl
          | some second =>
            -- The second pile is another one, so the first change has not touched it.
            have hq' : (b.modify source fun _ => p.replace cardA second).pile? c = some q := by
              rw [pile?_modify, if_neg (PileId.index_ne hne), hq]
            simp only [Pile.replaceStrict_eq, Option.bind_some, hq', Option.pure_def]
            rw [modify_eq_of_pile? hp (·.replace cardA second),
              modify_eq_of_pile? hq' (·.replace cardB first)]

/-- Removing cards from a pile of the board takes cards that are there. -/
theorem removeStrict_eq (hsource : source.index < b.size) (ids : List CardId) :
    b.removeStrict source ids = some (b.remove source ids) := by
  obtain ⟨p, hp⟩ := exists_pile? hsource
  unfold removeStrict remove
  simp only [hp, Option.bind_eq_bind, Option.bind_some, Pile.canTakeStrict_eq]
  cases hempty : ids.isEmpty with
  | true => rfl
  | false =>
    cases htake : p.canTake ids with
    | false => rfl
    | true =>
      have hnodup : ids.Nodup := Pile.nodup_of_canTake (p := p) (by simp [hempty, htake])
      simp only [Bool.false_eq_true, if_false, Bool.not_true, Option.bind_some, Bool.or_false,
        Pile.takeEachStrict_eq hnodup, Option.pure_def]
      rw [modify_eq_of_pile? hp (·.eraseAll ids)]

/-- Removing the cards of a pile of the board takes a pile that is there. -/
theorem removeAllStrict_eq (hsource : source.index < b.size) :
    b.removeAllStrict source = some (b.removeAll source) := by
  obtain ⟨p, hp⟩ := exists_pile? hsource
  simp only [removeAllStrict, removeAll, hp, Option.bind_eq_bind, Option.bind_some,
    Option.pure_def]
  rw [modify_eq_of_pile? hp Pile.clear]

/-- Shuffling a pile of the board takes a pile that is there. -/
theorem shuffleStrict_eq (hsource : source.index < b.size) (stream : Stream) :
    b.shuffleStrict source stream = some (b.shuffle source stream) := by
  obtain ⟨p, hp⟩ := exists_pile? hsource
  simp only [shuffleStrict, shuffle, hp, Option.bind_eq_bind, Option.bind_some, Option.pure_def]

end Board

end HouseRules
