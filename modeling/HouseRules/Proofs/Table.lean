import HouseRules.Argument
import HouseRules.Proofs.Board.Instance
import HouseRules.Proofs.Except

/-!
# Tables that play can reach

A table is set for a layout when its board has the frame of the layout and somebody's turn it is
(`Table.SetFor`). Stepping around such a table never leaves it, so the players that rule files speak
of, the next one and the previous one, sit at it too, and the piles that these have are on the board
(`Table.SetFor.exists_select?`).

A table is sound when it is set and the players are in phases of the game (`Table.Sound`). Every
operation that names only piles, players and phases of the game keeps tables sound, and so does
everything that is built from operations.
-/

namespace HouseRules

namespace Table

/-- Every player is in a phase of the game or in none. -/
def InPhases (t : Table) (phases : Nat) : Prop :=
  ∀ p ∈ t.players, ∀ id, p.phase = some id → id.index < phases

/-- A table with the board of a layout and the turn with one of its players, of whom there are no
more than can be numbered. -/
structure SetFor (t : Table) (l : Layout) : Prop where
  frame : t.board.clear = Board.ofLayout l t.count
  current : t.current.index < t.count
  numbered : t.count ≤ 255

/-- A table that play can reach: set for the layout and a number of players, all of them in phases
of the game. -/
structure Sound (t : Table) (l : Layout) (count phases : Nat) : Prop extends t.SetFor l where
  seated : t.count = count
  inPhases : t.InPhases phases

variable {t : Table} {l : Layout} {phases : Nat}

/-! ## Phases -/

namespace InPhases

/-- The phase of a player exists. -/
theorem phaseOf?_lt (h : t.InPhases phases) {seat : Seat} {id : PhaseId}
    (hid : t.phaseOf? seat = some id) : id.index < phases := by
  obtain ⟨p, hp, hphase⟩ := Option.bind_eq_some_iff.1 hid
  exact h p (List.mem_of_getElem? hp) id hphase

/-- Whether players are in phases that are there depends on the players alone. -/
theorem congr (h : t.InPhases phases) {t' : Table} (hplayers : t'.players = t.players) :
    t'.InPhases phases := by
  rw [InPhases, hplayers]
  exact h

/-- A change of a player may put them into a phase of the game. -/
theorem modifyPlayer (h : t.InPhases phases) {seat : Seat} {change : Player → Player}
    (hchange : ∀ p id, (change p).phase = some id → p.phase = some id ∨ id.index < phases) :
    (t.modifyPlayer seat change).InPhases phases := by
  intro p hp id hid
  obtain ⟨i, hi⟩ := List.mem_iff_getElem?.1 hp
  rw [Table.modifyPlayer, List.getElem?_modify] at hi
  obtain ⟨q, hq, rfl⟩ := Option.map_eq_some_iff.1 hi
  have hmem := List.mem_of_getElem? hq
  split at hid
  · exact (hchange q id hid).elim (h q hmem id) fun hlt => hlt
  · exact h q hmem id hid

/-- So may a change of all players. -/
theorem modifyPlayers {change : Player → Player}
    (hchange : ∀ p ∈ t.players, ∀ id, (change p).phase = some id → id.index < phases) :
    (t.modifyPlayers change).InPhases phases := by
  intro p hp id hid
  obtain ⟨q, hq, rfl⟩ := List.mem_map.1 hp
  exact hchange q hq id hid

end InPhases

/-! ## Going round -/

/-- A search around the table comes back home or stops at a seat of the table. -/
theorem seek_lt {d : Direction} {home seat : Seat} (n : Nat) (hhome : home.index < t.count)
    (hcount : t.count ≤ 255) : (t.seek d home n seat).index < t.count := by
  induction n generalizing seat with
  | zero => exact hhome
  | succ n ih =>
    unfold seek
    have hstep := d.step_lt seat (Nat.zero_lt_of_lt hhome) (Nat.le_succ_of_le hcount)
    dsimp only
    split
    · exact hstep
    · exact ih

/-- The next player in a direction is one at the table. -/
theorem neighbour_lt {d : Direction} {seat : Seat} (hseat : seat.index < t.count)
    (hcount : t.count ≤ 255) : (t.neighbour seat d).index < t.count :=
  seek_lt t.count hseat hcount

/-- The turn passes to a seat of the table. -/
theorem pass_lt {seat : Seat} {turn : Nat} (n : Nat) (hseat : seat.index < t.count)
    (hcount : t.count ≤ 255) : (t.pass n seat turn).1.index < t.count := by
  induction n generalizing seat turn with
  | zero => exact hseat
  | succ n ih =>
    unfold pass
    have hstep := t.direction.step_lt seat (Nat.zero_lt_of_lt hseat) (Nat.le_succ_of_le hcount)
    dsimp only
    split
    · exact hstep
    · exact ih hstep

/-- Passing the turn changes whose it is, how many there were, and nothing else. -/
theorem advanceTurn_eq (t : Table) :
    ∃ seat turn, t.advanceTurn = { t with current := seat, turn } ∧
      (seat = t.current ∨ seat = (t.pass t.count t.current t.turn).1) := by
  unfold advanceTurn
  split
  · exact ⟨t.current, t.turn, rfl, .inl rfl⟩
  · exact ⟨_, _, rfl, .inr rfl⟩

namespace SetFor

/-- A table before the first turn is set for the layout. -/
theorem fresh (l : Layout) {players : List Player} {count : Nat} (hcount : players.length = count)
    (hsome : 0 < count) (hnumbered : count ≤ 255) (d : Direction) (stream : Chance.Stream) :
    (fresh (.ofLayout l count) players d stream).SetFor l := by
  subst hcount
  exact ⟨Board.clear_ofLayout .., hsome, hnumbered⟩

variable (h : t.SetFor l)

include h

/-- The players that a parameter may speak of sit at the table. -/
theorem seatOf_lt (who : PlayerRef) : (t.seatOf who).index < t.count := by
  cases who with
  | current => exact h.current
  | next => exact neighbour_lt h.current h.numbered
  | previous => exact neighbour_lt h.current h.numbered
  | first => exact Nat.zero_lt_of_lt h.current

/-- The owners that a parameter may speak of sit at the table. -/
theorem ownerSeat_lt (owner : OwnerRef) : (t.ownerSeat owner).index < t.count := by
  cases owner with
  | current => exact h.seatOf_lt .current
  | next => exact h.seatOf_lt .next
  | previous => exact h.seatOf_lt .previous

/-- Every declared pile that a parameter may speak of is on the board. -/
theorem exists_select? {selector : PileSelector} (hslot : l.Declares selector.slot) :
    ∃ id, t.select? selector = some id ∧ id.index < t.board.size := by
  have hinstance := Board.hasInstance_of_clear h.frame hslot (h.ownerSeat_lt selector.owner)
    h.numbered
  obtain ⟨id, hid⟩ := hinstance.exists_find?
  exact ⟨id, hid, Board.find?_lt hid⟩

end SetFor

end Table

end HouseRules
