import HouseRules.Proofs.Board.Cards
import HouseRules.Proofs.Board.Frame

/-!
# Where a card goes

The moves that play makes most take one card from a pile and put it on top of another. What such a
move does to the order of the cards is `Board.Moves`: the card leaves its place, the cards around it
stay in order, and no third pile is touched. A move of one card that was not refused is of this sort
(`Board.moves_of_transfer`), and moving the topmost card is not refused where the pile gives up its
topmost cards and no two of its cards have one number (`Board.exists_transferTop`).
-/

namespace HouseRules

/-! ## Piles -/

/-- Different pile numbers have different places. -/
theorem PileId.index_ne {a b : PileId} (h : a ≠ b) : a.index ≠ b.index := fun heq =>
  h (congrArg PileId.mk heq)

namespace Pile

/-- Under the policy to place cards on top, added cards lie above the others in their order. -/
theorem addAll_of_top {p : Pile} (h : p.policy.placement = .top) (cards : List Card) :
    (p.addAll cards).cards = p.cards ++ cards := by
  simp only [addAll, h]

/-- Adding cards leaves those that are there. -/
theorem mem_addAll {p : Pile} {cards : List Card} {card : Card}
    (h : card ∈ p.cards ∨ card ∈ cards) : card ∈ (p.addAll cards).cards := by
  unfold addAll
  split
  · exact List.mem_append.2 h
  · exact List.mem_append.2 (h.symm.imp_left List.mem_reverse.2)

/-- Erasing a card takes it from between the cards below and above it. -/
theorem exists_erase {p : Pile} {id : CardId} (h : p.contains id = true) :
    ∃ card below above, card.id = id ∧ p.card? id = some card ∧
      p.cards = below ++ card :: above ∧ (p.erase id).cards = below ++ above := by
  obtain ⟨found, hfound, hid⟩ := List.any_eq_true.1 h
  obtain ⟨card, below, above, hbelow, hcard, hcards, herase⟩ :=
    List.exists_of_eraseP (p := (·.id == id)) hfound hid
  refine ⟨card, below, above, beq_iff_eq.1 hcard, ?_, hcards, herase⟩
  have hnone : below.find? (·.id == id) = none := by simpa using hbelow
  rw [card?, hcards, List.find?_append, hnone, Option.none_or]
  exact List.find?_cons_of_pos hcard

end Pile

/-! ## Boards -/

namespace Board

/-! ### Changing piles -/

/-- Changing a pile into itself changes nothing. -/
theorem modify_unchanged (b : Board) (id : PileId) : b.modify id (fun p => p) = b := by
  simp only [modify]
  congr 1
  refine List.ext_getElem? fun i => ?_
  rw [List.getElem?_modify]
  split <;> simp

/-- A changed pile is found changed. -/
theorem pile?_modify_self (b : Board) (id : PileId) {pile : Pile} (h : b.pile? id = some pile)
    (change : Pile → Pile) : (b.modify id change).pile? id = some (change pile) := by
  rw [pile?_modify, if_pos rfl, h]
  rfl

/-- Two changes of one pile are one change. -/
theorem modify_modify (b : Board) (id : PileId) (f g : Pile → Pile) :
    (b.modify id f).modify id g = b.modify id fun p => g (f p) := by
  simp only [modify]
  congr 1
  refine List.ext_getElem? fun i => ?_
  simp only [List.getElem?_modify]
  split <;> simp [Function.comp_def]

/-- To change a pile is to put the changed pile in its place. -/
theorem modify_eq_of_pile? {b : Board} {source : PileId} {p : Pile}
    (h : b.pile? source = some p) (change : Pile → Pile) :
    b.modify source change = b.modify source fun _ => change p := by
  simp only [modify]
  congr 1
  refine List.ext_getElem? fun i => ?_
  rw [List.getElem?_modify, List.getElem?_modify]
  split
  next hi =>
    subst hi
    rw [show b.piles[source.index]? = some p from h]
    rfl
  next => rfl

/-! ### Cards of a pile -/

/-- The cards of a pile from bottom to top; none if there is no such pile. -/
def cardsAt (b : Board) (id : PileId) : List Card := ((b.pile? id).map (·.cards)).getD []

/-- The cards of a pile that is there are its own. -/
theorem cardsAt_of_pile? {b : Board} {id : PileId} {p : Pile} (h : b.pile? id = some p) :
    b.cardsAt id = p.cards := by
  rw [cardsAt, h]
  rfl

/-- A change shows in the cards of its own pile and of no other. -/
theorem cardsAt_modify (b : Board) (id other : PileId) (change : Pile → Pile) :
    (b.modify id change).cardsAt other =
      if other = id then ((b.pile? id).map fun p => (change p).cards).getD []
      else b.cardsAt other := by
  rw [cardsAt, pile?_modify]
  by_cases heq : other = id
  · rw [if_pos heq, heq, if_pos rfl, Option.map_map]
    rfl
  · rw [if_neg heq, if_neg (PileId.index_ne (Ne.symm heq)), cardsAt]

/-- A pile that has cards is on the board. -/
theorem exists_pile?_of_cardsAt {b : Board} {id : PileId} (h : b.cardsAt id ≠ []) :
    ∃ p, b.pile? id = some p ∧ p.cards = b.cardsAt id := by
  cases hp : b.pile? id with
  | none => exact absurd (by rw [cardsAt, hp]; rfl) h
  | some p => exact ⟨p, rfl, (cardsAt_of_pile? hp).symm⟩

/-- Clearing the board clears each of its piles. -/
theorem pile?_clear (b : Board) (id : PileId) : b.clear.pile? id = (b.pile? id).map Pile.clear :=
  List.getElem?_map ..

/-- What the frame says of a pile holds on the board. -/
theorem exists_pile?_of_clear {b : Board} {id : PileId} {frame : Pile}
    (h : b.clear.pile? id = some frame) :
    ∃ p, b.pile? id = some p ∧ p.policy = frame.policy := by
  rw [pile?_clear] at h
  obtain ⟨p, hp, rfl⟩ := Option.map_eq_some_iff.1 h
  exact ⟨p, hp, rfl⟩

/-- The cards of a pile are among those of the board. -/
theorem cardsAt_sublist (b : Board) (id : PileId) : (b.cardsAt id).Sublist b.cards := by
  cases hp : b.pile? id with
  | none =>
    rw [cardsAt, hp]
    exact List.nil_sublist _
  | some p =>
    rw [cardsAt_of_pile? hp]
    have hmem : p.cards ∈ b.piles.map (·.cards) := List.mem_map_of_mem (List.mem_of_getElem? hp)
    exact (List.sublist_flatten_of_mem hmem).trans (List.sublist_append_left ..)

/-- A card has gone from somewhere in one pile to the top of another, and nothing else has
happened. -/
structure Moves (b b' : Board) (source target : PileId) (card : Card) : Prop where
  taken : ∃ below above, b.cardsAt source = below ++ card :: above ∧
    b'.cardsAt source = below ++ above
  put : b'.cardsAt target = b.cardsAt target ++ [card]
  others : ∀ id, id ≠ source → id ≠ target → b'.cardsAt id = b.cardsAt id
  frame : b'.clear = b.clear

variable {b b' : Board} {source target : PileId} {card : Card}

/-- The pile that a card was put on is not empty. -/
theorem Moves.target_ne_nil (h : b.Moves b' source target card) : b'.cardsAt target ≠ [] := by
  rw [h.put]
  exact List.append_ne_nil_of_right_ne_nil _ (List.cons_ne_nil card [])

/-- Only the pile that a card was taken from may have become empty. -/
theorem Moves.ne_nil (h : b.Moves b' source target card) {id : PileId} (hid : id ≠ source)
    (hne : b.cardsAt id ≠ []) : b'.cardsAt id ≠ [] := by
  by_cases htarget : id = target
  · exact htarget ▸ h.target_ne_nil
  · rwa [h.others id hid htarget]

/-- A transfer succeeds just where there are cards to move that may all be taken together, and then
takes them from the source before it adds them to the target. -/
theorem transfer_eq_some {ids : List CardId} :
    b.transfer source target ids = some b' ↔ ∃ p, b.pile? source = some p ∧ ids ≠ [] ∧
      p.canTake ids = true ∧ b' = (b.modify source (·.eraseAll ids)).modify target
        (·.addAll (ids.filterMap p.card?)) := by
  simp only [transfer, Option.bind_eq_bind, Option.bind_eq_some_iff]
  refine exists_congr fun p => and_congr_right fun _ => ?_
  cases ids <;> cases p.canTake _ <;> simp [eq_comm]

/-- A card that was moved to another pile, where cards are put on top, was taken from its place and
put there. -/
theorem moves_of_transfer {id : CardId} (hne : source ≠ target) {q : Pile}
    (htarget : b.pile? target = some q) (htop : q.policy.placement = .top)
    (h : b.transfer source target [id] = some b') :
    ∃ card, card.id = id ∧ b.Moves b' source target card := by
  have hframe := clear_transfer h
  obtain ⟨p, hp, -, htake, rfl⟩ := transfer_eq_some.1 h
  simp only [Pile.canTake, List.all_cons, List.all_nil, Bool.and_true, Bool.and_eq_true] at htake
  obtain ⟨card, below, above, hid, hcard, hcards, herase⟩ := Pile.exists_erase htake.1.1
  have hput : [id].filterMap p.card? = [card] := List.filterMap_cons_some hcard
  refine ⟨card, hid, ⟨below, above, ?_, ?_⟩, ?_, ?_, hframe⟩
  · rw [cardsAt_of_pile? hp, hcards]
  · rw [cardsAt, pile?_modify, if_neg (PileId.index_ne hne.symm), pile?_modify, if_pos rfl, hp]
    exact herase
  · rw [cardsAt, pile?_modify, if_pos rfl, pile?_modify, if_neg (PileId.index_ne hne), htarget,
      hput, cardsAt_of_pile? htarget]
    exact Pile.addAll_of_top htop _
  · intro other hsource htarget
    rw [cardsAt, pile?_modify, if_neg (PileId.index_ne (Ne.symm htarget)), pile?_modify,
      if_neg (PileId.index_ne (Ne.symm hsource)), cardsAt]

/-- So was a topmost card. -/
theorem moves_of_transferTop (hne : source ≠ target) {q : Pile}
    (htarget : b.pile? target = some q) (htop : q.policy.placement = .top)
    (h : b.transferTop source target = some b') : ∃ card, b.Moves b' source target card := by
  simp only [transferTop, Option.bind_eq_bind, Option.bind_eq_some_iff] at h
  obtain ⟨_, -, top, -, h⟩ := h
  obtain ⟨card, -, hmoves⟩ := moves_of_transfer hne htarget htop h
  exact ⟨card, hmoves⟩

/-- A card that may be taken may be moved. -/
theorem exists_transfer {p : Pile} (hp : b.pile? source = some p) {id : CardId}
    (htake : p.canTake [id] = true) (target : PileId) :
    ∃ b', b.transfer source target [id] = some b' :=
  ⟨_, transfer_eq_some.2 ⟨p, hp, List.cons_ne_nil id [], htake, rfl⟩⟩

/-- The topmost card of a pile may be moved from one that gives up its topmost cards. -/
theorem exists_transferTop {p : Pile} (hp : b.pile? source = some p)
    (hremoval : p.policy.removal = .top) (hdistinct : (p.cards.map (·.id)).Nodup)
    (hne : p.cards ≠ []) (target : PileId) : ∃ b', b.transferTop source target = some b' := by
  obtain ⟨card, htop⟩ : ∃ card, p.top? = some card :=
    ⟨_, List.getLast?_eq_some_getLast hne⟩
  have hmem : p.contains card.id = true :=
    List.any_eq_true.2 ⟨card, List.mem_of_getLast? htop, beq_self_eq_true _⟩
  have htake : p.canTake [card.id] = true := by
    simp [Pile.canTake, Pile.permitsTaking, hremoval, hmem, Pile.position?_top hdistinct htop]
    omega
  obtain ⟨b', htransfer⟩ := exists_transfer hp htake target
  refine ⟨b', ?_⟩
  simp only [transferTop, hp, htop, Option.bind_eq_bind, Option.bind_some]
  exact htransfer

end Board

end HouseRules
