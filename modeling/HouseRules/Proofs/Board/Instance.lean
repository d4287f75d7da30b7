import HouseRules.Proofs.Board.Frame

/-!
# Finding piles

A declaration that every player has makes one pile for each seat, any other makes one that all
share; these are its instances. `Board.find?` answers with the instance for a seat whenever there is
one (`Board.HasInstance.exists_find?`), and the answer is a pile of the board (`Board.find?_lt`).
Pile numbers are two bytes, so the pile that a number stands for is the right one as long as there
are no more piles than numbers (`Board.isInstance_of_find?`).

What a pile is found by is in its frame, so a board in play finds its piles where the empty board of
its layout does, and there every declaration has an instance for every seat
(`Board.hasInstance_ofLayout`).
-/

namespace HouseRules

/-- A slot is that of a declaration of the layout, and one that two bytes can number. -/
def Layout.Declares (l : Layout) (slot : Slot) : Prop :=
  slot.index < l.piles.length ∧ slot.index < 65536

/-- The slot of a name is that of a declaration. -/
theorem Layout.declares_of_slot? {l : Layout} {name : String} {slot : Slot}
    (h : l.slot? name = some slot) : l.Declares slot := by
  obtain ⟨i, hi, rfl⟩ := Option.map_eq_some_iff.1 h
  have hlt := (List.findIdx?_eq_some_iff_getElem.1 hi).1
  have hmod : i % 65536 ≤ i := Nat.mod_le ..
  exact ⟨by simp only [Slot.ofNat]; omega, Nat.mod_lt _ (by decide)⟩

namespace Board

/-- There is a pile of a declaration for a seat: the seat's own, or one that all share. -/
def HasInstance (b : Board) (slot : Slot) (seat : Seat) : Prop :=
  ∃ p ∈ b.piles, p.slot = slot ∧ (p.owner = some seat ∨ p.owner = none)

/-- The pile of a number is the one of a declaration for a seat: the seat's own, or the one that all
share where the seat has none. -/
def IsInstance (b : Board) (slot : Slot) (seat : Seat) (id : PileId) : Prop :=
  ∃ p, b.pile? id = some p ∧ p.slot = slot ∧
    (p.owner = some seat ∨
      p.owner = none ∧ ∀ q ∈ b.piles, q.slot = slot → q.owner ≠ some seat)

/-! ## Piles that satisfy a test -/

/-- The numbers that a search gives are those of the places whose pile passes the test. -/
theorem mem_idsWhere {b : Board} {test : Pile → Bool} {id : PileId} :
    id ∈ b.idsWhere test ↔ ∃ i p, b.piles[i]? = some p ∧ test p = true ∧ id = .ofNat i := by
  simp only [idsWhere, entries, List.filterMap_map, List.mem_filterMap, Prod.exists,
    List.mem_zipIdx_iff_getElem?, Function.comp_apply]
  constructor
  · rintro ⟨p, i, hp, h⟩
    split at h
    · exact ⟨i, p, hp, ‹_›, (Option.some.inj h).symm⟩
    · cases h
  · rintro ⟨i, p, hp, htest, rfl⟩
    exact ⟨p, i, hp, if_pos htest⟩

/-- A number found is that of a pile of the board, though it may have wrapped. -/
theorem lt_of_mem_idsWhere {b : Board} {test : Pile → Bool} {id : PileId}
    (h : id ∈ b.idsWhere test) : id.index < b.size := by
  obtain ⟨i, p, hp, _, rfl⟩ := mem_idsWhere.1 h
  have hlt : i < b.piles.length := (List.getElem?_eq_some_iff.1 hp).1
  have hmod : i % 65536 ≤ i := Nat.mod_le ..
  simp only [PileId.ofNat, size]
  omega

/-- A number found is that of a pile with the test, where numbers do not wrap. -/
theorem exists_of_mem_idsWhere {b : Board} {test : Pile → Bool} {id : PileId}
    (hsize : b.size ≤ 65536) (h : id ∈ b.idsWhere test) :
    ∃ p, b.pile? id = some p ∧ test p = true := by
  obtain ⟨i, p, hp, htest, rfl⟩ := mem_idsWhere.1 h
  have hlt : i < b.piles.length := (List.getElem?_eq_some_iff.1 hp).1
  refine ⟨p, ?_, htest⟩
  rw [pile?, PileId.ofNat_index (Nat.lt_of_lt_of_le hlt hsize), hp]

/-- A pile with the test is found. -/
theorem idsWhere_ne_nil {b : Board} {test : Pile → Bool} {p : Pile} (hp : p ∈ b.piles)
    (htest : test p = true) : b.idsWhere test ≠ [] := by
  obtain ⟨i, hi, rfl⟩ := List.getElem_of_mem hp
  exact List.ne_nil_of_mem (mem_idsWhere.2 ⟨i, _, List.getElem?_eq_getElem hi, htest, rfl⟩)

/-- A test that does not look at cards finds the same piles on a board and on its frame. -/
theorem idsWhere_clear (b : Board) {test : Pile → Bool} (h : ∀ p : Pile, test p.clear = test p) :
    b.clear.idsWhere test = b.idsWhere test := by
  simp only [idsWhere, entries, clear, List.zipIdx_map, List.map_map, List.filterMap_map]
  refine List.filterMap_congr fun x _ => ?_
  simp [h]

/-! ## The instance for a seat -/

/-- The numbers of the piles of a declaration that a seat owns, or that all share. -/
theorem mem_of_find? {b : Board} {slot : Slot} {seat : Seat} {id : PileId}
    (h : b.find? slot seat = some id) :
    id ∈ b.idsWhere (fun p => p.slot == slot && p.owner == some seat) ∨
      b.idsWhere (fun p => p.slot == slot && p.owner == some seat) = [] ∧
        id ∈ b.idsWhere (fun p => p.slot == slot && p.owner == none) := by
  simp only [find?, Option.or_eq_some_iff] at h
  rcases h with h | ⟨hnone, h⟩
  · exact .inl (List.mem_of_getLast? h)
  · exact .inr ⟨List.getLast?_eq_none_iff.1 hnone, List.mem_of_getLast? h⟩

/-- A pile that was found is on the board. -/
theorem find?_lt {b : Board} {slot : Slot} {seat : Seat} {id : PileId}
    (h : b.find? slot seat = some id) : id.index < b.size := by
  rcases mem_of_find? h with h | ⟨_, h⟩
  · exact lt_of_mem_idsWhere h
  · exact lt_of_mem_idsWhere h

/-- The pile of a number below their number. -/
theorem exists_pile? {b : Board} {id : PileId} (h : id.index < b.size) :
    ∃ p, b.pile? id = some p :=
  ⟨b.piles.get ⟨id.index, h⟩, List.getElem?_eq_getElem h⟩

/-- An instance is found if there is one. -/
theorem HasInstance.exists_find? {b : Board} {slot : Slot} {seat : Seat}
    (h : b.HasInstance slot seat) : ∃ id, b.find? slot seat = some id := by
  obtain ⟨p, hp, rfl, howner⟩ := h
  rw [← Option.isSome_iff_exists, find?, Option.isSome_or, Bool.or_eq_true,
    List.getLast?_isSome, List.getLast?_isSome]
  rcases howner with howner | howner
  · exact .inl (idsWhere_ne_nil hp (by simp [howner]))
  · exact .inr (idsWhere_ne_nil hp (by simp [howner]))

/-- What is found is the instance, as long as there are no more piles than numbers. -/
theorem isInstance_of_find? {b : Board} {slot : Slot} {seat : Seat} {id : PileId}
    (hsize : b.size ≤ 65536) (h : b.find? slot seat = some id) : b.IsInstance slot seat id := by
  rcases mem_of_find? h with h | ⟨hnone, h⟩
  · obtain ⟨p, hp, htest⟩ := exists_of_mem_idsWhere hsize h
    simp only [Bool.and_eq_true, beq_iff_eq] at htest
    exact ⟨p, hp, htest.1, .inl htest.2⟩
  · obtain ⟨p, hp, htest⟩ := exists_of_mem_idsWhere hsize h
    simp only [Bool.and_eq_true, beq_iff_eq] at htest
    refine ⟨p, hp, htest.1, .inr ⟨htest.2, ?_⟩⟩
    intro q hq hslot howner
    exact idsWhere_ne_nil hq (by simp [hslot, howner]) hnone

@[simp] theorem find?_clear (b : Board) (slot : Slot) (seat : Seat) :
    b.clear.find? slot seat = b.find? slot seat := by
  simp only [find?]
  rw [idsWhere_clear b fun _ => rfl, idsWhere_clear b fun _ => rfl]

/-- Boards of one frame find the same piles. -/
theorem find?_congr {b b' : Board} (h : b.clear = b'.clear) (slot : Slot) (seat : Seat) :
    b.find? slot seat = b'.find? slot seat := by
  rw [← find?_clear, h, find?_clear]

/-- Boards of one frame have instances of the same declarations. -/
theorem HasInstance.congr {b b' : Board} {slot : Slot} {seat : Seat} (h : b.clear = b'.clear)
    (hb : b.HasInstance slot seat) : b'.HasInstance slot seat := by
  obtain ⟨p, hp, hslot, howner⟩ := hb
  have hmem : p.clear ∈ b'.clear.piles := h ▸ List.mem_map_of_mem hp
  obtain ⟨q, hq, hclear⟩ := List.mem_map.1 hmem
  refine ⟨q, hq, ?_, ?_⟩
  · rw [← q.clear_slot, hclear, p.clear_slot, hslot]
  · rwa [← q.clear_owner, hclear, p.clear_owner]

/-! ## Boards of layouts -/

@[simp] theorem clear_ofLayout (l : Layout) (count : Nat) :
    (ofLayout l count).clear = ofLayout l count := by
  simp only [clear, ofLayout, mk.injEq, and_true, List.map_flatMap]
  refine List.flatMap_congr fun x _ => ?_
  simp only [pilesFor]
  split
  · rfl
  · rw [List.map_map]
    rfl

/-- The board of a layout has an instance of every declaration for every seat at the table. -/
theorem hasInstance_ofLayout {l : Layout} {count : Nat} {slot : Slot} {seat : Seat}
    (hslot : l.Declares slot) (hseat : seat.index < count) (hcount : count ≤ 255) :
    (ofLayout l count).HasInstance slot seat := by
  obtain ⟨hlt, hbyte⟩ := hslot
  have hmem : (l.piles[slot.index], slot.index) ∈ l.piles.zipIdx :=
    List.mem_zipIdx_iff_getElem?.2 (List.getElem?_eq_getElem hlt)
  have hnum : Slot.ofNat slot.index = slot := by
    cases slot
    simp only [Slot.ofNat, Slot.mk.injEq]
    exact Nat.mod_eq_of_lt hbyte
  have hofLayout : ∀ p ∈ pilesFor count l.piles[slot.index] (.ofNat slot.index),
      p ∈ (ofLayout l count).piles := fun p hp => List.mem_flatMap.2 ⟨_, hmem, hp⟩
  -- The declaration's own piles hold the instance, whichever owner it names.
  cases howner : l.piles[slot.index].policy.owner with
  | common =>
    have hpiles : pilesFor count l.piles[slot.index] (.ofNat slot.index) =
        [⟨l.piles[slot.index].name, .ofNat slot.index, none, l.piles[slot.index].policy, []⟩] := by
      simp only [pilesFor, howner]
    exact ⟨_, hofLayout _ (hpiles ▸ List.mem_singleton_self _), hnum, .inr rfl⟩
  | player =>
    have hpiles : ⟨l.piles[slot.index].name, .ofNat slot.index, some seat,
        l.piles[slot.index].policy, []⟩ ∈
          pilesFor count l.piles[slot.index] (.ofNat slot.index) := by
      simp only [pilesFor, howner, List.mem_map]
      exact ⟨seat, Seat.mem_all.2 ⟨hseat, Nat.lt_of_lt_of_le hseat hcount⟩, rfl⟩
    exact ⟨_, hofLayout _ hpiles, hnum, .inl rfl⟩

/-- So has every board of its frame. -/
theorem hasInstance_of_clear {b : Board} {l : Layout} {count : Nat} {slot : Slot} {seat : Seat}
    (hb : b.clear = ofLayout l count) (hslot : l.Declares slot) (hseat : seat.index < count)
    (hcount : count ≤ 255) : b.HasInstance slot seat :=
  (hasInstance_ofLayout hslot hseat hcount).congr (by rw [hb, clear_ofLayout])

end Board

end HouseRules
