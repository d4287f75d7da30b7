import Mathlib.Data.Nat.ModEq
import HouseRules.Proofs.Deal.Schedule
import HouseRules.Proofs.Verdict

/-!
# Turns go round

Stepping around a table meets every seat once and comes back (`Direction.round_perm`), and the turn
passes along this round to the first seat that is active. So the turns that follow one another are
the active seats of the round in their order, and the turn is counted when the round comes by the
first seat, whoever sits there: `Table.turns_along` says so for any beginning of the round that ends
at an active seat, by induction on what is left of it.

A whole round from an active seat is such a beginning, and its active seats are all there are
(`Table.turns_go_round`).

Reference: `PlayState.advance_turn` (specification 8, E4).
-/

namespace HouseRules

open scoped List

/-! ## Rounds -/

namespace Direction

variable {d : Direction} {count m n : Nat} {s : Seat}

/-- A step goes a fixed number of seats on, one that has no divisor in common with their number. -/
theorem exists_stride (d : Direction) (h : 0 < count) :
    ∃ k, Nat.Coprime count k ∧
      (∀ s : Seat, d.step s count = .ofNat ((s.index + k) % count)) := by
  have hmax : max count 1 = count := Nat.max_eq_left h
  cases d with
  | clockwise => exact ⟨1, Nat.coprime_one_right count, fun s => by rw [step, hmax]⟩
  | counterclockwise =>
    refine ⟨count - 1, ?_, fun s => by rw [step, hmax, Nat.add_sub_assoc h]⟩
    exact (Nat.coprime_self_sub_right h).2 (Nat.coprime_one_right count)

/-- The seats met on one round, which begins at the next one. -/
def round (d : Direction) (count : Nat) (s : Seat) : List Seat :=
  d.walk count count (d.step s count)

/-- A walk of so many steps comes by so many seats. -/
theorem length_walk (d : Direction) (count n : Nat) (s : Seat) : (d.walk count n s).length = n := by
  induction n generalizing s with
  | zero => rfl
  | succ n ih => rw [walk, List.length_cons, ih]

/-- A shorter walk is the beginning of a longer one. -/
theorem walk_prefix (d : Direction) (count : Nat) (h : m ≤ n) (s : Seat) :
    d.walk count m s <+: d.walk count n s := by
  induction m generalizing n s with
  | zero => exact List.nil_prefix
  | succ m ih =>
    obtain ⟨n, rfl⟩ := Nat.exists_eq_succ_of_ne_zero (Nat.ne_zero_of_lt h)
    exact (List.prefix_cons_inj s).2 (ih (Nat.le_of_succ_le_succ h) _)

/-- What follows a seat on a walk is a walk from the seat after it. -/
theorem walk_after {before after : List Seat} {next : Seat}
    (h : d.walk count n s = before ++ next :: after) :
    after = d.walk count after.length (d.step next count) := by
  induction before generalizing n s with
  | nil =>
    cases n with
    | zero => cases h
    | succ n =>
      obtain ⟨rfl, hafter⟩ := List.cons.inj h
      rw [← hafter, length_walk]
  | cons _ before ih =>
    cases n with
    | zero => cases h
    | succ n => exact ih (List.cons.inj h).2

/-- One round meets all seats, each once, and ends where it began. -/
theorem round_perm (hcount : count ≤ 256) (hs : s.index < count) :
    d.round count s ~ (List.range count).map Seat.mk ∧ (d.round count s).getLast? = some s := by
  have h := Nat.zero_lt_of_lt hs
  obtain ⟨k, hk, hstep⟩ := d.exists_stride h
  have hnext : (d.step s count).index = (s.index + k) % count := by
    rw [hstep, Seat.ofNat_index (Nat.lt_of_lt_of_le (Nat.mod_lt _ h) hcount)]
  have hround : d.round count s =
      (List.range count).map fun i => ⟨(s.index + (i + 1) * k) % count⟩ := by
    rw [round, walk_eq_map hcount hstep h count (d.step_lt s h hcount)]
    refine List.map_congr_left fun i _ => congrArg Seat.mk ?_
    rw [hnext, Nat.mod_add_mod, Nat.succ_mul, Nat.add_assoc, Nat.add_comm k]
  have hnodup : (d.round count s).Nodup := by
    rw [hround]
    refine List.Nodup.map_on (fun i hi j hj hij => ?_) List.nodup_range
    -- Strides that differ in number by less than a round end at different seats.
    have hmod : (i + 1) * k ≡ (j + 1) * k [MOD count] :=
      Nat.ModEq.add_left_cancel' s.index (Seat.mk.inj hij)
    have hij' := Nat.ModEq.add_right_cancel' 1 (hmod.cancel_right_of_coprime hk)
    exact hij'.eq_of_lt_of_lt (List.mem_range.1 hi) (List.mem_range.1 hj)
  constructor
  · have hsubset : d.round count s ⊆ (List.range count).map Seat.mk := fun seat hseat => by
      rw [hround] at hseat
      obtain ⟨i, -, rfl⟩ := List.mem_map.1 hseat
      exact List.mem_map.2 ⟨_, List.mem_range.2 (Nat.mod_lt _ h), rfl⟩
    refine (List.subperm_of_subset hnodup hsubset).perm_of_length_le ?_
    rw [round, length_walk, List.length_map, List.length_range]
  · have hlast : (List.range count).getLast? = some (count - 1) := by
      rw [List.getLast?_range, if_neg (Nat.ne_of_gt h)]
    rw [hround, List.getLast?_map, hlast, Option.map_some, Nat.sub_add_cancel h,
      Nat.add_mul_mod_self_left, Nat.mod_eq_of_lt hs]

end Direction

namespace Table

variable {t : Table}

/-! ## One turn -/

/-- The seats that play comes by on one round from the current seat, which is the last of them. -/
def ahead (t : Table) : List Seat := t.direction.round t.count t.current

/-- The active seats are those at which a player is still playing. -/
theorem mem_activeSeats {seat : Seat} : seat ∈ t.activeSeats ↔ t.isActive seat = true :=
  mem_seatsWhere.trans isActive_iff.symm

/-- No active seat is listed twice. -/
theorem nodup_activeSeats (t : Table) : t.activeSeats.Nodup := t.nodup_seatsWhere _

/-- An active seat is one of the table. -/
theorem lt_of_isActive {seat : Seat} (h : t.isActive seat = true) : seat.index < t.count := by
  obtain ⟨p, hp, -⟩ := isActive_iff.1 h
  exact (List.getElem?_eq_some_iff.1 hp).1

/-- Passing steps over the seats that are not active, counting a turn at the first seat. -/
theorem pass_eq {n turn : Nat} {seat next : Seat} {skipped rest : List Seat}
    (h : t.direction.walk t.count n (t.direction.step seat t.count) = skipped ++ next :: rest)
    (hskipped : ∀ s ∈ skipped, t.isActive s = false) (hnext : t.isActive next = true) :
    t.pass n seat turn = (next, turn + (skipped ++ [next]).count .first) := by
  induction skipped generalizing n seat turn with
  | nil =>
    cases n with
    | zero => cases h
    | succ n =>
      obtain ⟨rfl, -⟩ := List.cons.inj h
      rw [pass, if_pos hnext, List.nil_append, List.count_singleton]
      split <;> simp_all
  | cons s skipped ih =>
    cases n with
    | zero => cases h
    | succ n =>
      obtain ⟨rfl, hrest⟩ := List.cons.inj h
      have hinactive := hskipped _ List.mem_cons_self
      rw [pass, if_neg (by rw [hinactive]; exact Bool.false_ne_true),
        ih hrest fun s hs => hskipped s (List.mem_cons_of_mem _ hs), List.cons_append,
        List.count_cons]
      split
      · simp_all
        omega
      · simp_all

/-- The turn passes to the first active seat of the round. -/
theorem advanceTurn_of_ahead {next : Seat} {skipped rest : List Seat}
    (h : t.ahead = skipped ++ next :: rest) (hskipped : ∀ s ∈ skipped, t.isActive s = false)
    (hnext : t.isActive next = true) :
    t.advanceTurn =
      { t with current := next, turn := t.turn + (skipped ++ [next]).count .first } := by
  have hsome : ¬ t.activeSeats.isEmpty = true := by
    rw [List.isEmpty_iff]
    exact List.ne_nil_of_mem (mem_activeSeats.2 hnext)
  rw [advanceTurn, if_neg hsome, pass_eq h hskipped hnext]

section Numbered

variable (hcount : t.count ≤ 255) (hcurrent : t.current.index < t.count)

include hcount hcurrent

/-- One round comes by all the seats of the table. -/
theorem mem_ahead {seat : Seat} : seat ∈ t.ahead ↔ seat.index < t.count := by
  rw [ahead, (Direction.round_perm (Nat.le_succ_of_le hcount) hcurrent).1.mem_iff, List.mem_map]
  simp only [List.mem_range]
  exact ⟨fun ⟨_, h, heq⟩ => heq ▸ h, fun h => ⟨_, h, rfl⟩⟩

/-- One round comes by no seat twice. -/
theorem nodup_ahead : t.ahead.Nodup :=
  (Direction.round_perm (Nat.le_succ_of_le hcount) hcurrent).1.nodup_iff.2
    (List.nodup_range.map fun _ _ h => Seat.mk.inj h)

/-- The active seats of a round are all there are. -/
theorem filter_ahead_perm : t.ahead.filter t.isActive ~ t.activeSeats := by
  have hnodup := (nodup_ahead hcount hcurrent).filter t.isActive
  refine (List.perm_ext_iff_of_nodup hnodup t.nodup_activeSeats).2 fun seat => ?_
  rw [List.mem_filter, mem_ahead hcount hcurrent, mem_activeSeats]
  exact ⟨And.right, fun h => ⟨lt_of_isActive h, h⟩⟩

/-- Where somebody is active, the turn passes to an active seat, over those before it that are
not. -/
theorem exists_skipped (hsome : t.activeSeats ≠ []) :
    ∃ skipped next rest, t.ahead = skipped ++ next :: rest ∧ (∀ s ∈ skipped, t.isActive s = false) ∧
      t.isActive next = true := by
  obtain ⟨seat, hseat⟩ := List.exists_mem_of_ne_nil _ hsome
  have hactive := mem_activeSeats.1 hseat
  have hmem := (mem_ahead hcount hcurrent).2 (lt_of_isActive hactive)
  obtain ⟨next, hnext⟩ := Option.isSome_iff_exists.1 (List.find?_isSome.2 ⟨seat, hmem, hactive⟩)
  obtain ⟨hnext, skipped, rest, hahead, hskipped⟩ := List.find?_eq_some_iff_append.1 hnext
  exact ⟨skipped, next, rest, hahead, fun s hs => by simpa using hskipped s hs, hnext⟩

end Numbered

/-! ## Turn after turn -/

/-- Of the seats up to the first active one, that one is active. -/
theorem filter_skipped {next : Seat} {skipped : List Seat}
    (hskipped : ∀ s ∈ skipped, t.isActive s = false) (hnext : t.isActive next = true)
    (rest : List Seat) :
    (skipped ++ next :: rest).filter t.isActive = next :: rest.filter t.isActive := by
  have hnone : skipped.filter t.isActive = [] :=
    List.filter_eq_nil_iff.2 fun s hs => by simp [hskipped s hs]
  rw [List.filter_append, hnone, List.nil_append, List.filter_cons_of_pos hnext]

/-- The turn passes to the first active seat of the beginning of a round, and what follows there
begins the round from that seat. -/
theorem advanceTurn_along {n : Nat} (hn : n ≤ t.count) {next : Seat} {skipped rest : List Seat}
    (hwalk : t.direction.walk t.count n (t.direction.step t.current t.count) =
      skipped ++ next :: rest)
    (hskipped : ∀ s ∈ skipped, t.isActive s = false) (hnext : t.isActive next = true) :
    t.advanceTurn =
        { t with current := next, turn := t.turn + (skipped ++ [next]).count .first } ∧
      rest.length ≤ t.count ∧
      t.direction.walk t.count rest.length (t.direction.step next t.count) = rest := by
  obtain ⟨more, hmore⟩ := Direction.walk_prefix t.direction t.count hn
    (t.direction.step t.current t.count)
  have hahead : t.ahead = skipped ++ next :: (rest ++ more) := by
    rw [ahead, Direction.round, ← hmore, hwalk, List.append_assoc, List.cons_append]
  have hlength := congrArg List.length hwalk
  rw [Direction.length_walk, List.length_append, List.length_cons] at hlength
  exact ⟨advanceTurn_of_ahead hahead hskipped hnext, by omega, (Direction.walk_after hwalk).symm⟩

/-- Along the beginning of a round that ends at an active seat, the turn goes to each active seat in
turn and to the last one in the end, and is counted as often as the first seat comes. -/
theorem turns_along {n : Nat} (hn : n ≤ t.count) {seats : List Seat}
    (hseats : t.direction.walk t.count n (t.direction.step t.current t.count) = seats)
    (hlast : ∀ s, seats.getLast? = some s → t.isActive s = true) :
    let k := (seats.filter t.isActive).length
    (List.range k).map (fun i => (advanceTurn^[i + 1] t).current) = seats.filter t.isActive ∧
      advanceTurn^[k] t =
        { t with current := seats.getLastD t.current, turn := t.turn + seats.count .first } := by
  induction hlength : seats.length using Nat.strong_induction_on generalizing t n seats with
  | _ length ih =>
    cases hfind : seats.find? t.isActive with
    | none =>
      -- The last seat would be active, so there is none.
      obtain rfl : seats = [] := by
        by_contra hne
        have hmem := List.getLast_mem hne
        exact List.find?_eq_none.1 hfind _ hmem (hlast _ (List.getLast?_eq_some_getLast hne))
      exact ⟨rfl, rfl⟩
    | some next =>
      obtain ⟨hnext, skipped, rest, rfl, hskipped⟩ := List.find?_eq_some_iff_append.1 hfind
      replace hskipped : ∀ s ∈ skipped, t.isActive s = false := fun s hs => by
        simpa using hskipped s hs
      have hlt : rest.length < length := by
        rw [← hlength, List.length_append, List.length_cons]
        omega
      -- The first turn passes to `next`, and the rest is a beginning of the round from there.
      obtain ⟨hturn, hle, hrest⟩ := advanceTurn_along hn hseats hskipped hnext
      have hlater := ih rest.length hlt (t := t.advanceTurn) (n := rest.length)
        (by rw [hturn]; exact hle) (by rw [hturn]; exact hrest)
        (by
          rw [hturn]
          intro s hs
          refine hlast s ?_
          rw [List.getLast?_append, List.getLast?_cons, hs]
          rfl) rfl
      have hactive : t.advanceTurn.isActive = t.isActive := by
        rw [hturn]
        rfl
      rw [hactive] at hlater
      obtain ⟨hvisited, hround⟩ := hlater
      dsimp only
      rw [filter_skipped hskipped hnext, List.length_cons]
      constructor
      · rw [List.range_succ_eq_map, List.map_cons, List.map_map]
        exact congrArg₂ List.cons (congrArg current hturn) hvisited
      · rw [Function.iterate_succ_apply, hround, hturn]
        congr 1
        · rw [List.getLastD_eq_getLast?, List.getLastD_eq_getLast?, List.getLast?_append,
            List.getLast?_cons]
          rfl
        · simp only [List.count_append, List.count_cons, List.count_nil]
          omega

/-- **Turns go round.** At a table of up to 255 players of whom some are active, the turn passes
from whatever seat it is with to the first active one ahead, and it is counted exactly if play comes
by the first seat on the way there, whether or not somebody active sits in it. From an active seat,
as many turns as there are active seats go to each of these once, and leave the table as it was but
for one turn more. -/
theorem turns_go_round (t : Table) (hcount : t.count ≤ 255) (hcurrent : t.current.index < t.count)
    (hsome : t.activeSeats ≠ []) :
    (∃ skipped next rest, t.ahead = skipped ++ next :: rest ∧ (∀ s ∈ skipped, s ∉ t.activeSeats) ∧
      next ∈ t.activeSeats ∧
      t.advanceTurn = { t with
        current := next, turn := t.turn + if .first ∈ skipped ++ [next] then 1 else 0 }) ∧
    (t.current ∈ t.activeSeats →
      (List.range t.activeSeats.length).map (fun i => (advanceTurn^[i + 1] t).current) ~
          t.activeSeats ∧
        t.activeSeats.Nodup ∧
        advanceTurn^[t.activeSeats.length] t = { t with turn := t.turn + 1 }) := by
  have hnodup := nodup_ahead hcount hcurrent
  obtain ⟨hperm, hlast⟩ :=
    Direction.round_perm (d := t.direction) (Nat.le_succ_of_le hcount) hcurrent
  constructor
  · obtain ⟨skipped, next, rest, hahead, hskipped, hnext⟩ := exists_skipped hcount hcurrent hsome
    refine ⟨skipped, next, rest, hahead, fun s hs hmem => ?_, mem_activeSeats.2 hnext, ?_⟩
    · exact Bool.false_ne_true ((hskipped s hs).symm.trans (mem_activeSeats.1 hmem))
    · -- No seat comes twice on one round.
      have hpassed : (skipped ++ [next]).Nodup := by
        refine hnodup.sublist (hahead ▸ ?_)
        exact List.Sublist.append_left ((List.nil_sublist rest).cons_cons next) skipped
      rw [advanceTurn_of_ahead hahead hskipped hnext, hpassed.count]
  · intro hactive
    have hturns := turns_along (t := t) (Nat.le_refl _) rfl fun s hs => by
      obtain rfl : s = t.current := Option.some.inj (hs.symm.trans hlast)
      exact mem_activeSeats.1 hactive
    have hfilter := filter_ahead_perm hcount hcurrent
    obtain ⟨hvisited, hround⟩ := hturns
    have hlength : ((t.direction.walk t.count t.count
        (t.direction.step t.current t.count)).filter t.isActive).length = t.activeSeats.length :=
      hfilter.length_eq
    rw [hlength] at hvisited hround
    refine ⟨hvisited ▸ hfilter, t.nodup_activeSeats, hround.trans ?_⟩
    have hfirst : t.ahead.count .first = 1 :=
      List.count_eq_one_of_mem hnodup
        ((mem_ahead hcount hcurrent).2 (Nat.zero_lt_of_lt hcurrent))
    congr 1
    · rw [List.getLastD_eq_getLast?]
      exact congrArg (Option.getD · t.current) hlast
    · exact congrArg (t.turn + ·) hfirst

/-- Four players of whom the one in the first seat has lost and another has won, going
counterclockwise from the last seat. -/
def twoLeft : Table :=
  let player (status : Status) : Player := ⟨"", [], none, status⟩
  { fresh ⟨[], []⟩ [player .lost, player .playing, player .won, player .playing]
      .counterclockwise (.ofSeed 0) with current := ⟨3⟩ }

/-- They take a turn each, and the second one comes by the first seat. -/
theorem twoLeft_go_round :
    twoLeft.count ≤ 255 ∧ twoLeft.current.index < twoLeft.count ∧
      twoLeft.activeSeats = [⟨1⟩, ⟨3⟩] ∧ twoLeft.current ∈ twoLeft.activeSeats ∧
      (List.range 2).map (fun i => (advanceTurn^[i + 1] twoLeft).current) ~ [⟨1⟩, ⟨3⟩] ∧
      advanceTurn^[2] twoLeft = { twoLeft with turn := 2 } := by
  have hactive : twoLeft.activeSeats = [⟨1⟩, ⟨3⟩] := by decide +kernel
  have hcurrent : twoLeft.current ∈ twoLeft.activeSeats := by rw [hactive]; decide
  obtain ⟨hvisited, -, hround⟩ := (turns_go_round twoLeft (by decide) (by decide)
    (List.ne_nil_of_mem hcurrent)).2 hcurrent
  rw [hactive] at hvisited hround
  exact ⟨by decide, by decide, hactive, hcurrent, hvisited, hround⟩

end Table

end HouseRules
