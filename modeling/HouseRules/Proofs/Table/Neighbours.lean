import Mathlib.Data.List.Chain
import HouseRules.Argument
import HouseRules.Proofs.Operation
import HouseRules.Proofs.Table.Turns

/-!
# Neighbours at the table

The table is gone round in two ways: to look who is next to a seat (`Table.neighbour`), which stops
at that seat at the latest, and to pass the turn (`Table.pass`), which does not look where it began.
Both meet the same seats in the same order, so both are read off the round that begins after the
seat: the neighbour is the first seat of it that is active or the one begun at
(`Table.neighbour_eq`), the turn goes to the first that is active (`Table.advanceTurn_of_ahead`).
The two are one, because a round ends where it begins (`Table.nextSeat_eq`).

Going back from the neighbour of an active seat leads to this seat again
(`Table.neighbour_reversed`): a walk read backwards is a walk in the other direction
(`Direction.walk_back`).

Reference: `PlayState.next_player`, `PlayState.previous_player` (specification E2.4).
-/

namespace HouseRules

/-! ## Walking back -/

namespace Direction

variable {d : Direction} {count n : Nat} {s next : Seat}

/-- Clockwise the next seat is the one numbered next, and the first after the last. -/
theorem step_clockwise (hcount : count ≤ 256) (hs : s.index < count) :
    clockwise.step s count = if s.index + 1 = count then .first else ⟨s.index + 1⟩ := by
  have hmax : max count 1 = count := Nat.max_eq_left (Nat.zero_lt_of_lt hs)
  rw [step, hmax]
  split
  next hlast =>
    rw [hlast, Nat.mod_self]
    rfl
  next hinner => rw [Nat.mod_eq_of_lt (by omega), Seat.ofNat, Nat.mod_eq_of_lt (by omega)]

/-- Counterclockwise the next seat is the one numbered before, and the last before the first. -/
theorem step_counterclockwise (hcount : count ≤ 256) (hs : s.index < count) :
    counterclockwise.step s count =
      if s.index = 0 then ⟨count - 1⟩ else ⟨s.index - 1⟩ := by
  have hmax : max count 1 = count := Nat.max_eq_left (Nat.zero_lt_of_lt hs)
  rw [step, hmax]
  split
  next hfirst =>
    rw [hfirst, Nat.zero_add, Nat.mod_eq_of_lt (by omega), Seat.ofNat, Nat.mod_eq_of_lt (by omega)]
  next hinner =>
    have hround : s.index + count - 1 = s.index - 1 + count := by omega
    rw [hround, Nat.add_mod_right, Nat.mod_eq_of_lt (by omega), Seat.ofNat,
      Nat.mod_eq_of_lt (by omega)]

/-- A step back undoes a step. -/
theorem step_reversed (d : Direction) (hcount : count ≤ 256) (hs : s.index < count) :
    d.reversed.step (d.step s count) count = s := by
  have hlt := d.step_lt s (Nat.zero_lt_of_lt hs) hcount
  obtain ⟨i⟩ := s
  cases d with
  | clockwise =>
    rw [reversed, step_counterclockwise hcount hlt, step_clockwise hcount hs]
    by_cases hlast : i + 1 = count
    · rw [if_pos hlast, if_pos (show Seat.first.index = 0 from rfl), ← hlast, Nat.add_sub_cancel]
    · rw [if_neg hlast, if_neg (Nat.succ_ne_zero i), Nat.add_sub_cancel]
  | counterclockwise =>
    rw [reversed, step_clockwise hcount hlt, step_counterclockwise hcount hs]
    by_cases hfirst : i = 0
    · rw [if_pos hfirst, if_pos (Nat.sub_add_cancel (Nat.zero_lt_of_lt hs)), hfirst, Seat.first]
    · have hback : i - 1 + 1 = i := Nat.succ_pred_eq_of_ne_zero hfirst
      have hinner : i - 1 + 1 ≠ count := by
        rw [hback]
        exact Nat.ne_of_lt hs
      rw [if_neg hfirst, if_neg hinner, hback]

/-- One seat follows another at the table. -/
def Follows (d : Direction) (count : Nat) (s next : Seat) : Prop :=
  s.index < count ∧ next = d.step s count

/-- On a walk each seat follows the one before. -/
theorem isChain_walk (hcount : count ≤ 256) (hs : s.index < count) :
    (d.walk count n s).IsChain (d.Follows count) := by
  induction n generalizing s with
  | zero => exact .nil
  | succ n ih =>
    have hrest := ih (d.step_lt s (Nat.zero_lt_of_lt hs) hcount)
    cases n with
    | zero => exact .singleton s
    | succ n => exact .cons_cons ⟨hs, rfl⟩ hrest

/-- Seats that follow one another are met on a walk. -/
theorem eq_walk_of_isChain {seats : List Seat} (h : (s :: seats).IsChain (d.Follows count)) :
    seats = d.walk count seats.length (d.step s count) := by
  induction seats generalizing s with
  | nil => rfl
  | cons next seats ih =>
    obtain ⟨⟨-, rfl⟩, hrest⟩ := List.isChain_cons_cons.1 h
    rw [List.length_cons, walk, ← ih hrest]

/-- Where a walk from one seat ends at another, the walk back ends at the seat that it began
after, by way of the same seats. -/
theorem walk_back {between : List Seat} (hcount : count ≤ 256) (hs : s.index < count)
    (h : d.walk count n (d.step s count) = between ++ [next]) :
    d.reversed.walk count n (d.reversed.step next count) = between.reverse ++ [s] := by
  have hlength : n = (between.reverse ++ [s]).length := by
    have := congrArg List.length h
    rw [length_walk, List.length_append, List.length_singleton] at this
    rw [List.length_append, List.length_reverse, List.length_singleton, this]
  have hchain : (s :: (between ++ [next])).IsChain (d.Follows count) := by
    rw [← h]
    exact isChain_walk (n := n + 1) hcount hs
  have hback : (next :: (between.reverse ++ [s])).IsChain (d.reversed.Follows count) := by
    rw [← List.isChain_reverse] at hchain
    have hreverse : (s :: (between ++ [next])).reverse = next :: (between.reverse ++ [s]) := by simp
    rw [hreverse] at hchain
    refine hchain.imp fun later earlier hfollows => ?_
    obtain ⟨hearlier, rfl⟩ := hfollows
    exact ⟨d.step_lt earlier (Nat.zero_lt_of_lt hearlier) hcount,
      (d.step_reversed hcount hearlier).symm⟩
  rw [hlength, ← eq_walk_of_isChain hback]

end Direction

/-! ## Neighbours -/

namespace Table

variable {t : Table} {d : Direction} {n : Nat} {home seat next : Seat} {skipped rest : List Seat}

/-- A search steps over the seats that are neither home nor active. -/
theorem seek_eq (h : d.walk t.count n (d.step seat t.count) = skipped ++ next :: rest)
    (hskipped : ∀ s ∈ skipped, s ≠ home ∧ t.isActive s = false)
    (hnext : next = home ∨ t.isActive next = true) : t.seek d home n seat = next := by
  induction skipped generalizing n seat with
  | nil =>
    cases n with
    | zero => cases h
    | succ n =>
      obtain ⟨rfl, -⟩ := List.cons.inj h
      rw [seek, if_pos (by simpa using hnext)]
  | cons s skipped ih =>
    cases n with
    | zero => cases h
    | succ n =>
      obtain ⟨rfl, hrest⟩ := List.cons.inj h
      obtain ⟨hhome, hinactive⟩ := hskipped _ List.mem_cons_self
      rw [seek, if_neg (by simp [hhome, hinactive])]
      exact ih hrest fun s hs => hskipped s (List.mem_cons_of_mem _ hs)

/-- The neighbour of a seat is the first one on the round from there that is active or the seat
itself. -/
theorem neighbour_eq (h : d.round t.count seat = skipped ++ next :: rest)
    (hskipped : ∀ s ∈ skipped, s ≠ seat ∧ t.isActive s = false)
    (hnext : next = seat ∨ t.isActive next = true) : t.neighbour seat d = next :=
  seek_eq h hskipped hnext

/-- There is such a seat, because the round ends where it began. -/
theorem exists_neighbour (hcount : t.count ≤ 255) (hseat : seat.index < t.count) (d : Direction) :
    ∃ skipped rest, d.round t.count seat = skipped ++ t.neighbour seat d :: rest ∧
      (∀ s ∈ skipped, s ≠ seat ∧ t.isActive s = false) ∧
      (t.neighbour seat d = seat ∨ t.isActive (t.neighbour seat d) = true) := by
  have hlast := (Direction.round_perm (d := d) (Nat.le_succ_of_le hcount) hseat).2
  obtain ⟨next, hfind⟩ : ∃ next, (d.round t.count seat).find? (fun s => s == seat || t.isActive s) =
      some next := by
    rw [← Option.isSome_iff_exists, List.find?_isSome]
    exact ⟨seat, List.mem_of_getLast? hlast, by simp⟩
  obtain ⟨hnext, skipped, rest, hround, hskipped⟩ := List.find?_eq_some_iff_append.1 hfind
  have hnext : next = seat ∨ t.isActive next = true := by simpa using hnext
  have hskipped : ∀ s ∈ skipped, s ≠ seat ∧ t.isActive s = false := fun s hs => by
    simpa using hskipped s hs
  have heq := neighbour_eq hround hskipped hnext
  exact ⟨skipped, rest, heq.symm ▸ hround, hskipped, heq.symm ▸ hnext⟩

/-- The next seat is the one that the turn passes to. -/
theorem nextSeat_eq (hcount : t.count ≤ 255) (hcurrent : t.current.index < t.count) :
    t.nextSeat = t.advanceTurn.current := by
  by_cases hnobody : t.activeSeats = []
  · -- The round has no active seat, so the search comes home.
    obtain ⟨-, -, -, -, hnext⟩ := exists_neighbour hcount hcurrent t.direction
    have hhome := hnext.resolve_right fun hactive => by
      have hmem := mem_activeSeats.2 hactive
      rw [hnobody] at hmem
      cases hmem
    rw [advanceTurn, if_pos (by rw [hnobody]; rfl)]
    exact hhome
  · obtain ⟨skipped, next, rest, hahead, hskipped, hactive⟩ :=
      exists_skipped hcount hcurrent hnobody
    rw [advanceTurn_of_ahead hahead hskipped hactive]
    refine neighbour_eq hahead (fun s hs => ⟨?_, hskipped s hs⟩) (.inr hactive)
    -- The round comes to the current seat once, and that is at its end.
    rintro rfl
    have hlast := (Direction.round_perm (d := t.direction) (Nat.le_succ_of_le hcount) hcurrent).2
    have hnodup := nodup_ahead hcount hcurrent
    rw [← ahead, hahead, List.getLast?_append_cons] at hlast
    rw [hahead] at hnodup
    exact List.disjoint_of_nodup_append hnodup hs (List.mem_of_getLast? hlast)

/-- The neighbour's neighbour on the other side is the seat itself, if that is active. -/
theorem neighbour_reversed (hcount : t.count ≤ 255) (hactive : t.isActive seat = true)
    (d : Direction) : t.neighbour (t.neighbour seat d) d.reversed = seat := by
  have hseat := lt_of_isActive hactive
  have hsize : t.count ≤ 256 := Nat.le_succ_of_le hcount
  obtain ⟨skipped, rest, hround, hskipped, hnext⟩ := exists_neighbour hcount hseat d
  generalize t.neighbour seat d = next at hround hnext ⊢
  have hnext : t.isActive next = true := hnext.elim (fun h => h ▸ hactive) id
  have hlength := congrArg List.length hround
  rw [Direction.round, Direction.length_walk, List.length_append, List.length_cons] at hlength
  -- The beginning of the round, up to the neighbour.
  have hthere : d.walk t.count (skipped.length + 1) (d.step seat t.count) = skipped ++ [next] := by
    have hprefix := d.walk_prefix t.count (m := skipped.length + 1) (n := t.count) (by omega)
      (d.step seat t.count)
    have heq := List.prefix_iff_eq_take.1 hprefix
    rw [Direction.length_walk, ← Direction.round, hround] at heq
    rw [heq, List.take_append, List.take_of_length_le (Nat.le_succ _), Nat.add_sub_cancel_left,
      List.take_succ_cons, List.take_zero]
  have hback := Direction.walk_back hsize hseat hthere
  obtain ⟨more, hmore⟩ := d.reversed.walk_prefix t.count (m := skipped.length + 1) (n := t.count)
    (by omega) (d.reversed.step next t.count)
  rw [hback, List.append_assoc, List.singleton_append] at hmore
  refine neighbour_eq hmore.symm (fun s hs => ?_) (.inr hactive)
  have hinactive := (hskipped s (List.mem_reverse.1 hs)).2
  exact ⟨fun heq => Bool.false_ne_true ((heq ▸ hinactive).symm.trans hnext), hinactive⟩

/-- A search asks for nothing but the players. -/
theorem seek_congr {t' : Table} (h : t'.players = t.players) :
    t'.seek d home n seat = t.seek d home n seat := by
  have hcount : t'.count = t.count := congrArg List.length h
  have hactive : ∀ s, t'.isActive s = t.isActive s := fun s => by
    simp only [isActive, player?, h]
  induction n generalizing seat with
  | zero => rfl
  | succ n ih => simp only [seek, hcount, hactive, ih]

/-- Passing the turn moves no neighbours. -/
theorem neighbour_advanceTurn (seat : Seat) (d : Direction) :
    t.advanceTurn.neighbour seat d = t.neighbour seat d := by
  obtain ⟨_, _, hturn, -⟩ := t.advanceTurn_eq
  rw [hturn]
  exact seek_congr rfl

/-- After the turn of an active player the previous seat is theirs. -/
theorem previousSeat_advanceTurn (hcount : t.count ≤ 255) (hactive : t.isActive t.current = true) :
    t.advanceTurn.previousSeat = t.current := by
  have hdirection : t.advanceTurn.direction = t.direction := by
    obtain ⟨_, _, hturn, -⟩ := t.advanceTurn_eq
    rw [hturn]
  rw [previousSeat, neighbour_advanceTurn, hdirection,
    ← nextSeat_eq hcount (lt_of_isActive hactive)]
  exact neighbour_reversed hcount hactive t.direction

/-- What a rule file calls the next player's pile is the current player's after the turn. -/
theorem select?_next (hcount : t.count ≤ 255) (hcurrent : t.current.index < t.count)
    (slot : Slot) : t.select? ⟨slot, .next⟩ = t.advanceTurn.select? ⟨slot, .current⟩ := by
  have hboard : t.advanceTurn.board = t.board := by
    obtain ⟨_, _, hturn, -⟩ := t.advanceTurn_eq
    rw [hturn]
  simp only [select?, ownerSeat, hboard, nextSeat_eq hcount hcurrent]

/-- **The next player is who plays next.** At a table of up to 255 players, whoever of them is
active, `end-turn` answers yes and passes the turn to the next seat; so what rule files call the
next player and the next player's pile before it they call the current ones after it. The previous
seat is the next one the other way round: from the neighbour of an active seat on either side the
neighbour on the other side is that seat, so after the turn of an active player the previous seat is
theirs. -/
theorem next_plays_next (t : Table) (hcount : t.count ≤ 255)
    (hcurrent : t.current.index < t.count) (ranking : Ranking) (phases : Nat) :
    ∃ t', Operation.dispatch ⟨.endTurn, []⟩ ranking phases t = .ok (.bool true, t') ∧
      t' = t.advanceTurn ∧ t'.current = t.nextSeat ∧
      (∀ context, Token.constant t' context (.player .current) =
        Token.constant t context (.player .next)) ∧
      (∀ context slot, Token.constant t' context (.pile ⟨slot, .current⟩) =
        Token.constant t context (.pile ⟨slot, .next⟩)) ∧
      (∀ seat d, t.isActive seat = true → t.neighbour (t.neighbour seat d) d.reversed = seat) ∧
      (t.isActive t.current = true → t'.previousSeat = t.current) := by
  have hnext := nextSeat_eq hcount hcurrent
  refine ⟨t.advanceTurn, rfl, rfl, hnext.symm, fun context => ?_, fun context slot => ?_,
    fun seat d hactive => neighbour_reversed hcount hactive d, previousSeat_advanceTurn hcount⟩
  · simp only [Token.constant, seatOf, hnext]
  · simp only [Token.constant, Token.selected, select?_next hcount hcurrent]

/-- Four players with a hand each, of whom two are active, going counterclockwise from the last
seat. -/
def twoHands : Table :=
  let hands : Layout := ⟨"hands", [⟨"hand", { owner := .player }⟩], none, none, none, [], []⟩
  { twoLeft with board := .ofLayout hands 4 }

/-- The turn passes over the seat between them, from the hand in the last seat to the one in the
second. -/
theorem twoHands_plays_next :
    twoHands.count ≤ 255 ∧ twoHands.current.index < twoHands.count ∧
      ∃ t', Operation.dispatch ⟨.endTurn, []⟩ .flat 0 twoHands = .ok (.bool true, t') ∧
        t'.current = ⟨1⟩ ∧
        Token.constant t' "" (.player .current) = .ok (.player ⟨1⟩) ∧
        Token.constant t' "" (.pile ⟨⟨0⟩, .current⟩) = .ok (.pile ⟨1⟩) ∧
        twoHands.isActive ⟨3⟩ = true ∧
        twoHands.neighbour (twoHands.neighbour ⟨3⟩ .clockwise) .counterclockwise = ⟨3⟩ ∧
        t'.previousSeat = ⟨3⟩ := by
  have hactive : twoHands.isActive ⟨3⟩ = true := by decide
  obtain ⟨t', hturn, -, hcurrent, hplayer, hpile, hback, hprevious⟩ :=
    next_plays_next twoHands (by decide) (by decide) .flat 0
  refine ⟨by decide, by decide, t', hturn, ?_, ?_, ?_, hactive, hback ⟨3⟩ .clockwise hactive,
    hprevious hactive⟩
  · rw [hcurrent]
    decide
  · rw [hplayer]
    rfl
  · rw [hpile]
    rfl

end Table

end HouseRules
