import Mathlib.Data.List.Sigma
import HouseRules.Proofs.Table
import HouseRules.Verdict

/-!
# Whose turn comes next, and who has won

Facts about tables that the progress of a game rests on. While the player on the next seat is
active, passing the turn is one step around the table (`Table.exists_advanceTurn`). A game is won by
the one player who has won (`Table.verdict?_of_won`), and it is not over while nobody has won and
two or more still play (`Table.verdict?_of_playing`).
-/

namespace HouseRules.Table

variable {t : Table}

/-! ## Seats -/

/-- The seats with a test are those whose players pass it. -/
theorem mem_seatsWhere {test : Player → Bool} {seat : Seat} :
    seat ∈ t.seatsWhere test ↔ ∃ p, t.player? seat = some p ∧ test p = true := by
  simp only [seatsWhere, List.mem_filterMap, Prod.exists, List.mem_zipIdx_iff_getElem?, player?]
  constructor
  · rintro ⟨p, i, hp, h⟩
    split at h
    · cases h
      exact ⟨p, hp, ‹_›⟩
    · cases h
  · rintro ⟨p, hp, htest⟩
    exact ⟨p, seat.index, hp, if_pos htest⟩

/-- No seat with a test is listed twice. -/
theorem nodup_seatsWhere (t : Table) (test : Player → Bool) : (t.seatsWhere test).Nodup := by
  have hplaces : t.players.zipIdx.Pairwise fun x y => x.2 ≠ y.2 :=
    List.pairwise_map.1 (List.nodup_zipIdx_map_snd t.players)
  refine List.pairwise_filterMap.2 (hplaces.imp fun hne seat hseat seat' hseat' heq => hne ?_)
  simp only [Option.ite_none_right_eq_some, Option.some.injEq] at hseat hseat'
  exact Seat.mk.inj (hseat.2.trans (heq.trans hseat'.2.symm))

/-- The one seat that satisfies a test. -/
theorem seatsWhere_eq_singleton {test : Player → Bool} {seat : Seat}
    (h : ∀ other, (∃ p, t.player? other = some p ∧ test p = true) ↔ other = seat) :
    t.seatsWhere test = [seat] := by
  have hmem : ∀ other, other ∈ t.seatsWhere test ↔ other = seat := fun other =>
    mem_seatsWhere.trans (h other)
  have hnodup := t.nodup_seatsWhere test
  refine List.perm_singleton.1 ?_
  rw [List.perm_ext_iff_of_nodup hnodup (List.nodup_singleton seat)]
  exact fun other => (hmem other).trans List.mem_singleton.symm

/-- Where no player passes a test no seat does. -/
theorem seatsWhere_eq_nil {test : Player → Bool} (h : ∀ p ∈ t.players, test p = false) :
    t.seatsWhere test = [] := by
  refine List.eq_nil_iff_forall_not_mem.2 fun seat hseat => ?_
  obtain ⟨p, hp, htest⟩ := mem_seatsWhere.1 hseat
  exact Bool.false_ne_true ((h p (List.mem_of_getElem? hp)).symm.trans htest)

/-! ## Turns -/

/-- A seat is active when the player who sits there is. -/
theorem isActive_iff {seat : Seat} :
    t.isActive seat = true ↔ ∃ p, t.player? seat = some p ∧ p.isActive = true := by
  unfold isActive
  cases t.player? seat <;> simp

/-- The turn passes to the next seat if somebody active sits there. -/
theorem exists_advanceTurn (h : t.isActive (t.direction.step t.current t.count) = true)
    (hcount : 0 < t.count) :
    ∃ turn, t.advanceTurn = { t with current := t.direction.step t.current t.count, turn } := by
  obtain ⟨n, hn⟩ := Nat.exists_eq_succ_of_ne_zero (Nat.ne_of_gt hcount)
  have hpass : (t.pass t.count t.current t.turn).1 = t.direction.step t.current t.count := by
    rw [hn, pass, ← hn]
    simp only [h, if_true]
  have hactive : ¬ t.activeSeats.isEmpty = true := by
    rw [List.isEmpty_iff]
    exact List.ne_nil_of_mem (mem_seatsWhere.2 (isActive_iff.1 h))
  unfold advanceTurn
  rw [if_neg hactive, ← hpass]
  exact ⟨_, rfl⟩

/-! ## Verdicts -/

/-- The one player who has won is the winner. -/
theorem verdict?_of_won {winner : Seat}
    (h : ∀ seat, (∃ p, t.player? seat = some p ∧ p.status = .won) ↔ seat = winner) :
    t.verdict? = some (.winner winner) := by
  have hwon : t.seatsWhere (·.status == .won) = [winner] :=
    seatsWhere_eq_singleton fun seat => by simpa only [beq_iff_eq] using h seat
  rw [verdict?, hwon]

/-- While all of two or more players play there is no verdict. -/
theorem verdict?_of_playing (h : ∀ p ∈ t.players, p.status = .playing) (hcount : 2 ≤ t.count) :
    t.verdict? = none := by
  have hwon : t.seatsWhere (·.status == .won) = [] :=
    seatsWhere_eq_nil fun p hp => by rw [h p hp]; rfl
  have hactive : ∀ seat : Seat, seat.index < t.count → seat ∈ t.activeSeats := fun seat hseat =>
    mem_seatsWhere.2 ⟨t.players[seat.index], List.getElem?_eq_getElem hseat, by
      rw [Player.isActive, h _ (List.getElem_mem hseat)]; rfl⟩
  have hfirst := hactive ⟨0⟩ (Nat.lt_of_lt_of_le Nat.zero_lt_two hcount)
  have hsecond := hactive ⟨1⟩ (Nat.lt_of_lt_of_le Nat.one_lt_two hcount)
  rw [verdict?, hwon]
  -- Two different seats are active.
  match t.activeSeats, hfirst, hsecond with
  | [seat], hfirst, hsecond =>
    rw [List.mem_singleton] at hfirst hsecond
    cases hfirst.trans hsecond.symm
  | _ :: _ :: _, _, _ => rfl

end HouseRules.Table
