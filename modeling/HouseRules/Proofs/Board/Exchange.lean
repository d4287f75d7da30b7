import Mathlib.Logic.Equiv.Basic
import HouseRules.Proofs.Board.Transfer

/-!
# What exchanging two cards does

`Board.exchange` asks for two cards by their numbers. Within one pile it swaps their places; between
two piles it puts each in the other's place, one after the other. Where no two cards on the board
have one number both come to the same (`Board.exchange_eq_some`): the cards have to be exposed, each
at a place of the pile that was named (`Board.Exposes`), the places have to be different, and
afterwards their cards have changed places (`Board.Swapped`).

A swap exposes the cards again, each at the other's place (`Board.Swapped.exposes`), also in piles
that give up their topmost card only, for it says nothing about how high a pile is. So the same two
cards can be exchanged back, and then everything is as it was (`Board.exchange_undone`).

Reference: `GameBoard.exchange` (specification 8, E3).
-/

namespace HouseRules

/-! ## Places -/

/-- A place on a board: a pile, and how many of its cards lie below. -/
structure Place where
  pile : PileId
  height : Nat
  deriving DecidableEq

namespace Board

variable {b b' b'' : Board} {x y z : Place} {p : Pile} {first second : Card} {m n : CardId}

/-- The card at a place. -/
def cardAt? (b : Board) (x : Place) : Option Card := (b.cardsAt x.pile)[x.height]?

/-- The card at a place of a pile is the one at that position among its cards. -/
theorem cardAt?_of_pile? {id : PileId} (hp : b.pile? id = some p) (i : Nat) :
    b.cardAt? ⟨id, i⟩ = p.cards[i]? := by
  rw [cardAt?, cardsAt_of_pile? hp]

/-- A board is known by its frame, the cards out of play, and the card at each place. -/
theorem eq_of_cardAt? (hframe : b'.clear = b.clear) (hremoved : b'.removed = b.removed)
    (hcards : ∀ z, b'.cardAt? z = b.cardAt? z) : b' = b := by
  have hpile : ∀ id, b'.pile? id = b.pile? id := by
    intro id
    have hclear : (b'.pile? id).map Pile.clear = (b.pile? id).map Pile.clear := by
      rw [← pile?_clear, hframe, pile?_clear]
    have hcards : b'.cardsAt id = b.cardsAt id := List.ext_getElem? fun i => hcards ⟨id, i⟩
    cases hp : b.pile? id with
    | none => simpa [hp] using hclear
    | some p =>
      obtain ⟨p', hp', heq⟩ := Option.map_eq_some_iff.1 (hclear.trans (by rw [hp, Option.map_some]))
      rw [cardsAt_of_pile? hp, cardsAt_of_pile? hp'] at hcards
      cases p
      cases p'
      simp_all [Pile.clear]
  obtain ⟨piles, removed⟩ := b
  obtain ⟨piles', removed'⟩ := b'
  obtain rfl : removed' = removed := hremoved
  obtain rfl : piles' = piles := List.ext_getElem? fun i => hpile ⟨i⟩
  rfl

/-- Puts a card in the place of another. -/
def setCard (b : Board) (x : Place) (card : Card) : Board :=
  b.modify x.pile fun p => { p with cards := p.cards.set x.height card }

@[simp] theorem clear_setCard (b : Board) (x : Place) (card : Card) :
    (b.setCard x card).clear = b.clear :=
  clear_modify fun _ _ => rfl

@[simp] theorem removed_setCard (b : Board) (x : Place) (card : Card) :
    (b.setCard x card).removed = b.removed := rfl

/-- The card shows at its place, if there was one before, and nowhere else. -/
theorem cardAt?_setCard (b : Board) (x z : Place) (card : Card) :
    (b.setCard x card).cardAt? z =
      if z = x then (b.cardAt? z).map fun _ => card else b.cardAt? z := by
  obtain ⟨id, i⟩ := x
  obtain ⟨other, j⟩ := z
  simp only [cardAt?, setCard, cardsAt_modify, Place.mk.injEq]
  by_cases hid : other = id
  · subst hid
    cases hp : b.pile? other with
    | none => simp [cardsAt, hp]
    | some p =>
      rw [cardsAt_of_pile? hp]
      simp only [if_pos, Option.map_some, Option.getD_some, true_and, List.getElem?_set]
      by_cases hj : j = i
      · subst hj
        rw [if_pos rfl, if_pos rfl]
        split
        next hlt => rw [List.getElem?_eq_getElem hlt, Option.map_some]
        next hge => rw [List.getElem?_eq_none (Nat.le_of_not_lt hge), Option.map_none]
      · rw [if_neg (Ne.symm hj), if_neg hj]
  · rw [if_neg hid, if_neg fun h => hid h.1]

/-! ## Swaps -/

/-- The cards of two places stand in each other's place, and nothing else has happened. -/
structure Swapped (b b' : Board) (x y : Place) : Prop where
  frame : b'.clear = b.clear
  removed : b'.removed = b.removed
  cards : ∀ z, b'.cardAt? z = b.cardAt? (Equiv.swap x y z)

/-- It does not matter which of two exchanged places is named first. -/
theorem Swapped.comm (h : b.Swapped b' x y) : b.Swapped b' y x :=
  { h with cards := fun z => by rw [h.cards, Equiv.swap_comm] }

/-- An exchange of two places is undone by the same exchange. -/
theorem Swapped.symm (h : b.Swapped b' x y) : b'.Swapped b x y where
  frame := h.frame.symm
  removed := h.removed.symm
  cards z := by rw [h.cards, Equiv.swap_apply_self]

/-- There is one board with the cards of two places swapped. -/
theorem Swapped.unique (h : b.Swapped b' x y) (h' : b.Swapped b'' x y) : b' = b'' :=
  eq_of_cardAt? (h.frame.trans h'.frame.symm) (h.removed.trans h'.removed.symm)
    fun z => by rw [h.cards, h'.cards]

/-- To put two cards in each other's place, one after the other, is to swap them. -/
theorem swapped_setCard (hx : b.cardAt? x = some first) (hy : b.cardAt? y = some second)
    (hne : x ≠ y) : b.Swapped ((b.setCard x second).setCard y first) x y where
  frame := by simp
  removed := by simp
  cards z := by
    rw [cardAt?_setCard, cardAt?_setCard, Equiv.swap_apply_def]
    by_cases hzy : z = y
    · subst hzy
      rw [if_pos rfl, if_neg hne.symm, if_neg hne.symm, if_pos rfl, hy, hx, Option.map_some]
    · rw [if_neg hzy, if_neg hzy]
      by_cases hzx : z = x
      · subst hzx
        rw [if_pos rfl, if_pos rfl, hx, hy, Option.map_some]
      · rw [if_neg hzx, if_neg hzx]

/-- A swap leaves the piles as high as they are. -/
theorem Swapped.cardAt?_eq_none (h : b.Swapped b' x y) (hx : b.cardAt? x = some first)
    (hy : b.cardAt? y = some second) : b'.cardAt? z = none ↔ b.cardAt? z = none := by
  rw [h.cards, Equiv.swap_apply_def]
  split
  next hz => simp [hz, hx, hy]
  next =>
    split
    next hz => simp [hz, hx, hy]
    next => rfl

/-! ## Exposed cards -/

/-- The card of a number stands at a place and may be taken from there by itself. -/
def Exposes (b : Board) (x : Place) (id : CardId) : Prop :=
  ∃ p card, b.pile? x.pile = some p ∧ p.cards[x.height]? = some card ∧ card.id = id ∧
    card ∈ p.removable

/-- A place exposes a card under one number only. -/
theorem Exposes.id_unique (h : b.Exposes x m) (h' : b.Exposes x n) : m = n := by
  obtain ⟨p, card, hp, hcard, rfl, -⟩ := h
  obtain ⟨p', card', hp', hcard', rfl, -⟩ := h'
  obtain rfl : p = p' := Option.some.inj (hp.symm.trans hp')
  rw [Option.some.inj (hcard.symm.trans hcard')]

/-- A pile exposes the cards that it offers. -/
theorem exists_exposes_iff (hdistinct : b.Distinct) {pile : PileId} (hp : b.pile? pile = some p)
    {id : CardId} : (∃ i, b.Exposes ⟨pile, i⟩ id) ↔ ∃ card ∈ p.removable, card.id = id := by
  constructor
  · rintro ⟨i, p', card, hp', -, hid, hmem⟩
    obtain rfl : p' = p := Option.some.inj (hp'.symm.trans hp)
    exact ⟨card, hmem, hid⟩
  · rintro ⟨card, hmem, hid⟩
    obtain ⟨hcard, -⟩ := (Pile.mem_removable (hdistinct.pile hp)).1 hmem
    obtain ⟨i, hi⟩ := List.mem_iff_getElem?.1 hcard
    exact ⟨i, p, card, hp, hi, hid, hmem⟩

/-- After a swap each of two exposed cards is exposed at the other's place. -/
theorem Swapped.exposes (h : b.Swapped b' x y) (hdistinct : b.Distinct) (hdistinct' : b'.Distinct)
    (hx : b.Exposes x m) (hy : b.Exposes y n) : b'.Exposes x n := by
  obtain ⟨p, first, hp, hfirst, -, hfree⟩ := hx
  obtain ⟨q, second, hq, hsecond, hid, -⟩ := hy
  obtain ⟨p', hp', hpolicy⟩ := exists_pile?_of_frame h.frame hp
  have hplace : ∀ i, b.cardAt? ⟨x.pile, i⟩ = p.cards[i]? := cardAt?_of_pile? hp
  have hplace' : ∀ i, b'.cardAt? ⟨x.pile, i⟩ = p'.cards[i]? := cardAt?_of_pile? hp'
  have hxcard : b.cardAt? x = some first := (hplace _).trans hfirst
  have hycard : b.cardAt? y = some second := (cardAt?_of_pile? hq _).trans hsecond
  have hcard : p'.cards[x.height]? = some second := by
    rw [← hplace', h.cards, Equiv.swap_apply_left, hycard]
  have habove : p'.cards[x.height + 1]? = none ↔ p.cards[x.height + 1]? = none := by
    rw [← hplace, ← hplace', h.cardAt?_eq_none hxcard hycard]
  refine ⟨p', second, hp', hcard, hid, ?_⟩
  rw [Pile.mem_removable_of_getElem? (hdistinct'.pile hp') hcard, hpolicy, habove,
    ← Pile.mem_removable_of_getElem? (hdistinct.pile hp) hfirst]
  exact hfree

/-! ## Exchanges -/

variable {a d : PileId} {q : Pile} {i j : Nat}

/-- To replace a card by its number is to put another in its place. -/
theorem modify_replace (hp : b.pile? a = some p) (hi : p.position? m = some i) (card : Card) :
    b.modify a (·.replace m card) = b.setCard ⟨a, i⟩ card := by
  rw [setCard, modify_eq_of_pile? hp, modify_eq_of_pile? hp (fun p => { p with cards := _ })]
  simp only [Pile.replace, hi]

/-- The checks of an exchange that was not refused. -/
theorem checks_of_exchange (h : b.exchange a d m n = some b') :
    ∃ p q, b.pile? a = some p ∧ b.pile? d = some q ∧ p.canTake [m] = true ∧
      q.canTake [n] = true ∧ (a = d → m ≠ n) := by
  simp only [exchange, Option.bind_eq_bind, Option.bind_eq_some_iff] at h
  obtain ⟨p, hp, q, hq, h⟩ := h
  split at h
  · cases h
  next hfree =>
    simp only [Bool.or_eq_true, Bool.not_eq_true', not_or, Bool.not_eq_false] at hfree
    refine ⟨p, q, hp, hq, hfree.1, hfree.2, ?_⟩
    rintro rfl rfl
    -- Within a pile, a card is not at a place other than its own.
    rw [if_pos rfl] at h
    obtain ⟨swapped, hswap, -⟩ := Option.bind_eq_some_iff.1 h
    simp only [Pile.swap?, Option.bind_eq_bind, Option.bind_eq_some_iff] at hswap
    obtain ⟨i, hi, j, hj, _, _, _, _, hne⟩ := hswap
    obtain rfl : i = j := Option.some.inj (hi.symm.trans hj)
    simp at hne

/-- An exchange that passes them puts the two cards in each other's place, whether the piles are two
or one. -/
theorem exchange_eq (hdistinct : b.Distinct) (hp : b.pile? a = some p) (hq : b.pile? d = some q)
    (hfirst : p.cards[i]? = some first) (hsecond : q.cards[j]? = some second)
    (hfree : p.canTake [first.id] = true) (hfree' : q.canTake [second.id] = true)
    (hne : Place.mk a i ≠ ⟨d, j⟩) :
    b.exchange a d first.id second.id =
      some ((b.setCard ⟨a, i⟩ second).setCard ⟨d, j⟩ first) := by
  have hi := Pile.position?_of_getElem? (hdistinct.pile hp) hfirst
  have hj := Pile.position?_of_getElem? (hdistinct.pile hq) hsecond
  simp only [exchange, hp, hq, hfree, hfree', Option.bind_eq_bind, Option.bind_some, Bool.not_true,
    Bool.or_self, Bool.false_eq_true, if_false]
  by_cases had : a = d
  · subst had
    obtain rfl : p = q := Option.some.inj (hp.symm.trans hq)
    have hij : ¬ (i == j) = true := by simpa using hne
    have hswap : p.swap? first.id second.id =
        some { p with cards := (p.cards.set i second).set j first } := by
      simp only [Pile.swap?, hi, hj, hfirst, hsecond, Option.bind_eq_bind, Option.bind_some,
        if_neg hij]
    rw [if_pos rfl, hswap, Option.bind_some, setCard, setCard, modify_modify,
      modify_eq_of_pile? hp (fun p => { p with cards := _ })]
  · have hcard := Pile.card?_of_mem (hdistinct.pile hp) (List.mem_of_getElem? hfirst)
    have hcard' := Pile.card?_of_mem (hdistinct.pile hq) (List.mem_of_getElem? hsecond)
    -- The first change does not show in the other pile.
    have hq' : (b.setCard ⟨a, i⟩ second).pile? d = some q := by
      rw [setCard, pile?_modify, if_neg (PileId.index_ne had), hq]
    rw [if_neg had, hcard, hcard', Option.bind_some, Option.bind_some, modify_replace hp hi,
      modify_replace hq' hj]

/-- Cards that are exposed at different places can be exchanged, and then they are swapped. -/
theorem exists_exchange (hdistinct : b.Distinct) (hi : b.Exposes ⟨a, i⟩ m)
    (hj : b.Exposes ⟨d, j⟩ n) (hne : Place.mk a i ≠ ⟨d, j⟩) :
    ∃ b', b.exchange a d m n = some b' ∧ b.Swapped b' ⟨a, i⟩ ⟨d, j⟩ := by
  obtain ⟨p, first, hp, hfirst, rfl, hfree⟩ := hi
  obtain ⟨q, second, hq, hsecond, rfl, hfree'⟩ := hj
  have hfree := (Pile.canTake_single_iff (hdistinct.pile hp)).2 ⟨first, hfree, rfl⟩
  have hfree' := (Pile.canTake_single_iff (hdistinct.pile hq)).2 ⟨second, hfree', rfl⟩
  have hx : b.cardAt? ⟨a, i⟩ = some first := (cardAt?_of_pile? hp i).trans hfirst
  have hy : b.cardAt? ⟨d, j⟩ = some second := (cardAt?_of_pile? hq j).trans hsecond
  exact ⟨_, exchange_eq hdistinct hp hq hfirst hsecond hfree hfree' hne, swapped_setCard hx hy hne⟩

/-- No others can. -/
theorem exchange_eq_some (hdistinct : b.Distinct) : b.exchange a d m n = some b' ↔
    ∃ i j, b.Exposes ⟨a, i⟩ m ∧ b.Exposes ⟨d, j⟩ n ∧ Place.mk a i ≠ ⟨d, j⟩ ∧
      b.Swapped b' ⟨a, i⟩ ⟨d, j⟩ := by
  constructor
  · intro h
    obtain ⟨p, q, hp, hq, hfree, hfree', hdiff⟩ := checks_of_exchange h
    obtain ⟨i, hi⟩ := (exists_exposes_iff hdistinct hp).2
      ((Pile.canTake_single_iff (hdistinct.pile hp)).1 hfree)
    obtain ⟨j, hj⟩ := (exists_exposes_iff hdistinct hq).2
      ((Pile.canTake_single_iff (hdistinct.pile hq)).1 hfree')
    have hne : Place.mk a i ≠ ⟨d, j⟩ := fun heq =>
      hdiff (congrArg Place.pile heq) (hi.id_unique (heq ▸ hj))
    obtain ⟨b₁, hb₁, hswap⟩ := exists_exchange hdistinct hi hj hne
    obtain rfl : b₁ = b' := Option.some.inj (hb₁.symm.trans h)
    exact ⟨i, j, hi, hj, hne, hswap⟩
  · rintro ⟨i, j, hi, hj, hne, hswap⟩
    obtain ⟨b₁, hb₁, hswap₁⟩ := exists_exchange hdistinct hi hj hne
    rw [hb₁, hswap₁.unique hswap]

/-- After an exchange no two cards have one number either. -/
theorem Distinct.exchange (hdistinct : b.Distinct) (h : b.exchange a d m n = some b') :
    b'.Distinct := by
  obtain ⟨_, _, -, -, -, hswap⟩ := (exchange_eq_some hdistinct).1 h
  have hbag : (b'.cards : Multiset Card) = b.cards := bag_exchange h
  rw [Board.cards, Board.cards, hswap.removed, Multiset.coe_eq_coe, List.perm_append_right_iff]
    at hbag
  exact (hbag.map _).nodup_iff.2 hdistinct

/-- The same cards can be exchanged back, within one pile also by naming them as before. -/
theorem exchange_undone (hdistinct : b.Distinct) (h : b.exchange a d m n = some b') :
    b'.exchange a d n m = some b ∧ (a = d → b'.exchange a d m n = some b) := by
  have hdistinct' := hdistinct.exchange h
  obtain ⟨i, j, hi, hj, hne, hswap⟩ := (exchange_eq_some hdistinct).1 h
  have hi' := hswap.exposes hdistinct hdistinct' hi hj
  have hj' := hswap.comm.exposes hdistinct hdistinct' hj hi
  refine ⟨(exchange_eq_some hdistinct').2 ⟨i, j, hi', hj', hne, hswap.symm⟩, ?_⟩
  rintro rfl
  exact (exchange_eq_some hdistinct').2 ⟨j, i, hj', hi', hne.symm, hswap.symm.comm⟩

/-- An exchange is refused unless the piles offer the cards, and they are two. -/
theorem isSome_exchange_iff (hdistinct : b.Distinct) (hp : b.pile? a = some p)
    (hq : b.pile? d = some q) :
    (b.exchange a d m n).isSome = true ↔ (∃ card ∈ p.removable, card.id = m) ∧
      (∃ card ∈ q.removable, card.id = n) ∧ (a ≠ d ∨ m ≠ n) := by
  rw [← exists_exposes_iff hdistinct hp, ← exists_exposes_iff hdistinct hq,
    Option.isSome_iff_exists]
  constructor
  · rintro ⟨b', h⟩
    obtain ⟨_, _, -, -, -, -, hdiff⟩ := checks_of_exchange h
    obtain ⟨i, j, hi, hj, -, -⟩ := (exchange_eq_some hdistinct).1 h
    exact ⟨⟨i, hi⟩, ⟨j, hj⟩, Decidable.not_or_of_imp hdiff⟩
  · rintro ⟨⟨i, hi⟩, ⟨j, hj⟩, hdiff⟩
    have hne : Place.mk a i ≠ ⟨d, j⟩ := fun heq =>
      hdiff.elim (· (congrArg Place.pile heq)) (· (hi.id_unique (heq ▸ hj)))
    obtain ⟨b', hb', -⟩ := exists_exchange hdistinct hi hj hne
    exact ⟨b', hb'⟩

end Board

/-! ## Calls -/

namespace Operation

variable {p q : Pile}

/-- **Exchanging cards.** On a board where no two cards have one number, two cards can be exchanged
exactly where each pile offers the one that is named for it and they are not one card of one pile,
whether the piles are two or one. Each then stands where the other stood, and nothing else changes.
Exchanging them again, each by the pile that it is in now, is not refused and leaves the board as it
was before; within one pile so does the same exchange. An exchange that is refused changes
nothing. -/
theorem exchanges_exactly (t : Table) (a d : PileId) (hdistinct : t.board.Distinct)
    (hp : t.board.pile? a = some p) (hq : t.board.pile? d = some q) (ranking : Ranking)
    (phases : Nat) :
    (∀ m n, ((t.board.exchange a d m n).isSome = true ↔ (∃ card ∈ p.removable, card.id = m) ∧
        (∃ card ∈ q.removable, card.id = n) ∧ (a ≠ d ∨ m ≠ n)) ∧
      ∀ board, t.board.exchange a d m n = some board →
        (∃ i j first second, t.board.cardAt? ⟨a, i⟩ = some first ∧ first.id = m ∧
          t.board.cardAt? ⟨d, j⟩ = some second ∧ second.id = n ∧
          t.board.Swapped board ⟨a, i⟩ ⟨d, j⟩) ∧
        board.exchange a d n m = some t.board ∧
        (a = d → board.exchange a d m n = some t.board)) ∧
    (∀ first second, dispatch ⟨.exchange, [.pile a, .pile d, .card first, .card second]⟩ ranking
        phases t = .ok (moved t (t.board.exchange a d first.id second.id))) ∧
    moved t none = (.bool false, t) ∧
    ∀ board, moved t (some board) = (.bool true, { t with board }) := by
  refine ⟨fun m n => ⟨Board.isSome_exchange_iff hdistinct hp hq, fun board hboard =>
    ⟨?_, Board.exchange_undone hdistinct hboard⟩⟩, fun first second => ?_, rfl, fun _ => rfl⟩
  · obtain ⟨i, j, ⟨p', first, hp', hfirst, hm, -⟩, ⟨q', second, hq', hsecond, hn, -⟩, -, hswap⟩ :=
      (Board.exchange_eq_some hdistinct).1 hboard
    exact ⟨i, j, first, second, (Board.cardAt?_of_pile? hp' i).trans hfirst, hm,
      (Board.cardAt?_of_pile? hq' j).trans hsecond, hn, hswap⟩
  · have hop : (Call.mk .exchange [.pile a, .pile d, .card first, .card second]).operation =
        .ok (.exchange a d first.id second.id) := rfl
    have hcard : ∀ card : Card, (Value.card card).belongs t phases = true := fun _ => rfl
    exact dispatch_eq hop (Nat.le_refl 4) (by simp [belongs_pile hp, belongs_pile hq, hcard])

/-- A table with a pile of three cards that gives up its topmost one, and a hand of two. -/
def pileAndHand : Table :=
  let stock : Pile := ⟨"stock", ⟨0⟩, none, { removal := .top },
    [⟨0, "a", none⟩, ⟨1, "b", none⟩, ⟨2, "c", none⟩]⟩
  let hand : Pile := ⟨"hand", ⟨1⟩, some ⟨0⟩, { removal := .any }, [⟨3, "d", none⟩, ⟨4, "e", none⟩]⟩
  .fresh ⟨[stock, hand], []⟩ [.seated "ann" []] .clockwise (.ofSeed 0)

/-- The topmost card of the pile and the lowest of the hand change places and can be exchanged back;
so can the two cards of the hand, by the same exchange. A card below the topmost one, a card that is
not where it is said to be, and a card with itself are not exchanged. -/
theorem pileAndHand_exchanges :
    pileAndHand.board.Distinct ∧
      (∃ board, dispatch ⟨.exchange, [.pile ⟨0⟩, .pile ⟨1⟩, .card ⟨2, "c", none⟩,
            .card ⟨3, "d", none⟩]⟩ .flat 0 pileAndHand =
          .ok (.bool true, { pileAndHand with board }) ∧
        (board.cardsAt ⟨0⟩).map (·.id) = [0, 1, 3] ∧ (board.cardsAt ⟨1⟩).map (·.id) = [2, 4] ∧
        board.exchange ⟨0⟩ ⟨1⟩ 3 2 = some pileAndHand.board) ∧
      (∃ board, pileAndHand.board.exchange ⟨1⟩ ⟨1⟩ 3 4 = some board ∧
        (board.cardsAt ⟨1⟩).map (·.id) = [4, 3] ∧
        board.exchange ⟨1⟩ ⟨1⟩ 3 4 = some pileAndHand.board) ∧
      pileAndHand.board.exchange ⟨0⟩ ⟨1⟩ 1 3 = none ∧
      pileAndHand.board.exchange ⟨0⟩ ⟨1⟩ 3 2 = none ∧
      pileAndHand.board.exchange ⟨1⟩ ⟨1⟩ 3 3 = none := by
  have hdistinct : pileAndHand.board.Distinct := by
    unfold Board.Distinct
    decide
  obtain ⟨hboth, hdispatch, -, hmoved⟩ :=
    exchanges_exactly pileAndHand ⟨0⟩ ⟨1⟩ hdistinct rfl rfl .flat 0
  obtain ⟨hhand, -⟩ := exchanges_exactly pileAndHand ⟨1⟩ ⟨1⟩ hdistinct rfl rfl .flat 0
  obtain ⟨board, hboard⟩ := Option.isSome_iff_exists.1
    (show (pileAndHand.board.exchange ⟨0⟩ ⟨1⟩ 2 3).isSome = true from rfl)
  obtain ⟨board', hboard'⟩ := Option.isSome_iff_exists.1
    (show (pileAndHand.board.exchange ⟨1⟩ ⟨1⟩ 3 4).isSome = true from rfl)
  have hundone := ((hboth 2 3).2 board hboard).2.1
  have hundone' := ((hhand 3 4).2 board' hboard').2.2 rfl
  refine ⟨hdistinct, ⟨board, ?_, ?_, ?_, hundone⟩, ⟨board', hboard', ?_, hundone'⟩, rfl, rfl, rfl⟩
  · rw [hdispatch, ← hmoved board, ← hboard]
  · cases hboard
    rfl
  · cases hboard
    rfl
  · cases hboard'
    rfl

end Operation

end HouseRules
