import Mathlib.Data.List.Basic
import HouseRules.Deal.Schedule

/-!
# What a dealer has still to deal

The place of a dealer in a plan stands for a list: where the cards go that are still due
(`DealCursor.due`). At the beginning this is the schedule of the plan, before it is cut to the
number of cards (`DealCursor.due_begin`). Going on past what has had its share leaves the list as it
is (`DealCursor.settle_spec`), and counting a card takes off its first element
(`Dealer.due_advance`). What the counters of the dealer mean in each mode is said here once and
for all; the modules that follow see the list alone.

A share that is everything left is listed with as many cards as there are in all. The dealer does
not know that number and goes on with the share, so the two agree only as long as fewer cards than
that have been dealt, which is what `DealCursor.InStep` asks of the counters.
-/

namespace HouseRules

namespace DealPlan

variable {seats : List Seat} {cards : Nat}

/-- Where the cards go of players' piles and then of shared ones. -/
def targets (plan : DealPlan) (seats : List Seat) (cards : Nat)
    (players common : List DealPair) : List DealTarget :=
  players.flatMap (playerTargets plan.collate seats cards) ++ common.flatMap (commonTargets cards)

end DealPlan

namespace DealCursor

variable {plan : DealPlan} {seats : List Seat} {cards : Nat} {c : DealCursor} {pair : DealPair}

/-- Where the cards of a pair go that are still due, when it is the first pair of the phase. -/
def pairDue (plan : DealPlan) (seats : List Seat) (cards : Nat) (c : DealCursor)
    (pair : DealPair) : List DealTarget :=
  let share := pair.count.upTo cards
  match c.phase with
  | .playerPiles =>
    if plan.collate then
      (List.replicate (share - c.dealt) (seats.map fun seat => ⟨pair.slot, some seat⟩)).flatten.drop
        c.seat
    else
      match seats.drop c.seat with
      | [] => []
      | seat :: later =>
        List.replicate (share - c.dealt) ⟨pair.slot, some seat⟩ ++
          later.flatMap fun seat => List.replicate share ⟨pair.slot, some seat⟩
  | .commonPiles => List.replicate (share - c.dealt) ⟨pair.slot, none⟩
  | .done => []

/-- Where the cards of further pairs of a phase go, and those of the phases after it. -/
def restDue (plan : DealPlan) (seats : List Seat) (cards : Nat) (phase : DealPhase)
    (pairs : List DealPair) : List DealTarget :=
  match phase with
  | .playerPiles => plan.targets seats cards pairs plan.commonPiles
  | .commonPiles => plan.targets seats cards [] pairs
  | .done => []

/-- Where the cards go that are still due. -/
def due (plan : DealPlan) (seats : List Seat) (cards : Nat) (c : DealCursor) : List DealTarget :=
  match c.pairs with
  | [] => restDue plan seats cards c.phase []
  | pair :: rest => pairDue plan seats cards c pair ++ restDue plan seats cards c.phase rest

/-- What is due is what the pair in turn has still to get, and then what the rest gets. -/
theorem due_cons {rest : List DealPair} (hp : c.pairs = pair :: rest) :
    due plan seats cards c =
      pairDue plan seats cards c pair ++ restDue plan seats cards c.phase rest := by
  rw [due, hp]

/-- At the beginning of a pair all of it is due. -/
theorem due_begin (phase : DealPhase) (pairs : List DealPair) :
    due plan seats cards ⟨phase, pairs, 0, 0⟩ = restDue plan seats cards phase pairs := by
  cases pairs with
  | nil => rfl
  | cons pair rest =>
    cases phase with
    | done => rfl
    | commonPiles => rfl
    | playerPiles =>
      have hpair : pairDue plan seats cards ⟨.playerPiles, pair :: rest, 0, 0⟩ pair =
          DealPlan.playerTargets plan.collate seats cards pair := by
        unfold pairDue DealPlan.playerTargets
        cases plan.collate <;> cases seats <;> rfl
      simp only [due, hpair, restDue, DealPlan.targets, List.flatMap_cons, List.append_assoc]

/-- The beginning of a phase continues the end of the one before. -/
theorem due_nextPhase (hp : c.pairs = []) :
    due plan seats cards (c.nextPhase plan) = due plan seats cards c := by
  obtain ⟨phase, pairs, seat, dealt⟩ := c
  cases hp
  cases phase with
  | playerPiles => exact due_begin ..
  | commonPiles => rfl
  | done => rfl

/-! ## Counters in step -/

/-- The counters of a cursor say how far a table has come with a number of cards left: nobody has
got more cards than were dealt, the next player of a round is one of the players, and there are
players. -/
structure InStep (plan : DealPlan) (seats : List Seat) (cards left : Nat) (c : DealCursor) :
    Prop where
  players : seats ≠ []
  dealt : c.dealt + left ≤ cards
  seat : c.phase = .playerPiles → plan.collate = true → c.seat < seats.length
  done : c.phase = .done → c.pairs = []

variable {left : Nat}

/-- At the beginning of a phase the counters are in step with the cards left. -/
theorem InStep.begin (hseats : seats ≠ []) (hleft : left ≤ cards) (phase : DealPhase)
    {pairs : List DealPair} (hdone : phase = .done → pairs = []) :
    InStep plan seats cards left ⟨phase, pairs, 0, 0⟩ :=
  ⟨hseats, by simpa using hleft, fun _ _ => List.length_pos_of_ne_nil hseats, hdone⟩

/-- A share that is had has no cards left. -/
theorem upTo_sub_of_isSatisfied {count : DealCount} {dealt : Nat}
    (h : count.isSatisfied dealt = true) : count.upTo cards - dealt = 0 := by
  cases count with
  | exactly n => exact Nat.sub_eq_zero_of_le (of_decide_eq_true h)
  | all => cases h

/-- A share that is not had has some, as long as there are more cards than were dealt. -/
theorem exists_upTo_sub {count : DealCount} {dealt : Nat} (h : ¬ count.isSatisfied dealt = true)
    (hdealt : dealt < cards) :
    ∃ n, count.upTo cards - dealt = n + 1 ∧ count.upTo cards - (dealt + 1) = n := by
  cases count with
  | exactly n =>
    have : dealt < n := Nat.lt_of_not_le fun hle => h (decide_eq_true hle)
    exact ⟨n - (dealt + 1), by simp only [DealCount.upTo]; omega, rfl⟩
  | all => exact ⟨cards - (dealt + 1), by simp only [DealCount.upTo]; omega, rfl⟩

/-! ## Going on past what has had its share -/

/-- A pair that is finished has nothing due. -/
theorem pairDue_of_isFinished (h : c.isFinished plan seats.length pair = true) :
    pairDue plan seats cards c pair = [] := by
  obtain ⟨phase, pairs, seat, dealt⟩ := c
  unfold pairDue
  cases phase with
  | done => rfl
  | commonPiles =>
    have hsatisfied : pair.count.isSatisfied dealt = true := h
    simp only [upTo_sub_of_isSatisfied hsatisfied, List.replicate_zero]
  | playerPiles =>
    cases hcollate : plan.collate with
    | true =>
      have hsatisfied : pair.count.isSatisfied dealt = true := by
        simpa [isFinished, isPerPlayer, hcollate] using h
      simp [upTo_sub_of_isSatisfied hsatisfied]
    | false =>
      have hseat : seats.length ≤ seat := by
        simpa [isFinished, isPerPlayer, hcollate] using h
      simp [List.drop_eq_nil_of_le hseat]

/-- When a player has got their cards at once, the cards of the next player are due. -/
theorem pairDue_nextSeat (hphase : c.phase = .playerPiles) (hcollate : plan.collate = false)
    (hseat : c.seat < seats.length) (hsatisfied : pair.count.isSatisfied c.dealt = true) :
    pairDue plan seats cards { c with seat := c.seat + 1, dealt := 0 } pair =
      pairDue plan seats cards c pair := by
  simp only [pairDue, hphase, hcollate, List.drop_eq_getElem_cons hseat,
    upTo_sub_of_isSatisfied hsatisfied, List.replicate_zero, List.nil_append, Nat.sub_zero]
  cases seats.drop (c.seat + 1) <;> rfl

/-- The cursor points to a pair with cards due, or the deal is over. -/
structure Settled (plan : DealPlan) (seats : List Seat) (c : DealCursor) : Prop where
  done : c.pairs = [] → c.phase = .done
  finished : ∀ pair rest, c.pairs = pair :: rest → ¬ c.isFinished plan seats.length pair = true
  satisfied : ∀ pair rest, c.pairs = pair :: rest → ¬ pair.count.isSatisfied c.dealt = true

section
variable (hdone : c.phase ≠ .done) {rest : List DealPair}

include hdone

/-- Where no pair is left settling goes on to the next phase. -/
theorem settle_of_nil (hp : c.pairs = []) :
    settle plan seats.length c = settle plan seats.length (c.nextPhase plan) := by
  rw [settle, dif_neg hdone]
  split
  · rfl
  next heq => cases hp.symm.trans heq

/-- Where a pair has got all its shares settling goes on to the next pair. -/
theorem settle_of_finished (hp : c.pairs = pair :: rest)
    (hfinished : c.isFinished plan seats.length pair = true) :
    settle plan seats.length c =
      settle plan seats.length { c with pairs := rest, seat := 0, dealt := 0 } := by
  rw [settle, dif_neg hdone]
  split
  next heq => cases hp.symm.trans heq
  next heq =>
    cases hp.symm.trans heq
    rw [dif_pos hfinished]

/-- Where a seat has got its share settling goes on to the next seat. -/
theorem settle_of_satisfied (hp : c.pairs = pair :: rest)
    (hfinished : ¬ c.isFinished plan seats.length pair = true)
    (hsatisfied : pair.count.isSatisfied c.dealt = true) :
    settle plan seats.length c =
      settle plan seats.length { c with seat := c.seat + 1, dealt := 0 } := by
  rw [settle, dif_neg hdone]
  split
  next heq => cases hp.symm.trans heq
  next heq =>
    cases hp.symm.trans heq
    rw [dif_neg hfinished, dif_pos hsatisfied]

/-- Where a share is still due settling stays. -/
theorem settle_of_unsatisfied (hp : c.pairs = pair :: rest)
    (hfinished : ¬ c.isFinished plan seats.length pair = true)
    (hsatisfied : ¬ pair.count.isSatisfied c.dealt = true) : settle plan seats.length c = c := by
  rw [settle, dif_neg hdone]
  split
  next heq => cases hp.symm.trans heq
  next heq =>
    cases hp.symm.trans heq
    rw [dif_neg hfinished, dif_neg hsatisfied]

end

/-- Going on to the next phase keeps the counters in step. -/
theorem InStep.nextPhase (h : InStep plan seats cards left c) :
    InStep plan seats cards left (c.nextPhase plan) := by
  have hleft : left ≤ cards := by have := h.dealt; omega
  unfold DealCursor.nextPhase
  split
  · exact .begin h.players hleft .commonPiles nofun
  · exact .begin h.players hleft .done fun _ => rfl

/-- Only a player who gets all cards at once can have had their share before others. -/
theorem perPlayer_of_isSatisfied (hfinished : ¬ c.isFinished plan seats.length pair = true)
    (hsatisfied : pair.count.isSatisfied c.dealt = true) :
    c.phase = .playerPiles ∧ plan.collate = false ∧ c.seat < seats.length := by
  have hseat := seat_lt_of_not_isFinished hfinished hsatisfied
  unfold isFinished at hfinished
  split at hfinished
  next hper =>
    simp only [isPerPlayer, Bool.and_eq_true, beq_iff_eq, Bool.not_eq_true'] at hper
    exact ⟨hper.1, hper.2, hseat⟩
  next => exact absurd hsatisfied hfinished

/-- Going on past what has had its share changes nothing about what is due, and then the cursor
points to what is next. -/
theorem settle_spec (h : InStep plan seats cards left c) :
    due plan seats cards (settle plan seats.length c) = due plan seats cards c ∧
      InStep plan seats cards left (settle plan seats.length c) ∧
      Settled plan seats (settle plan seats.length c) := by
  have hleft : left ≤ cards := by have := h.dealt; omega
  induction c using settle.induct plan seats.length with
  | case1 c hdone =>
    rw [settle, dif_pos hdone]
    have hpairs := h.done hdone
    refine ⟨rfl, h, fun _ => hdone, ?_, ?_⟩
    · intro pair rest heq
      cases hpairs.symm.trans heq
    · intro pair rest heq
      cases hpairs.symm.trans heq
  | case2 c hdone hpairs ih =>
    rw [settle_of_nil hdone hpairs, ← due_nextPhase hpairs]
    exact ih h.nextPhase
  | case3 c hdone pair rest hpairs hfinished ih =>
    rw [settle_of_finished hdone hpairs hfinished, due_cons hpairs, pairDue_of_isFinished hfinished,
      List.nil_append, ← due_begin]
    exact ih (.begin h.players hleft c.phase fun hd => absurd hd hdone)
  | case4 c hdone pair rest hpairs hfinished hsatisfied ih =>
    obtain ⟨hphase, hcollate, hseat⟩ := perPlayer_of_isSatisfied hfinished hsatisfied
    have hpairs' : ({ c with seat := c.seat + 1, dealt := 0 } : DealCursor).pairs = pair :: rest :=
      hpairs
    have hdue : due plan seats cards { c with seat := c.seat + 1, dealt := 0 } =
        due plan seats cards c := by
      rw [due_cons hpairs', due_cons hpairs, pairDue_nextSeat hphase hcollate hseat hsatisfied]
    rw [settle_of_satisfied hdone hpairs hfinished hsatisfied, ← hdue]
    refine ih ⟨h.players, by simpa using hleft, ?_, fun hd => absurd hd hdone⟩
    intro _ hc
    rw [hcollate] at hc
    cases hc
  | case5 c hdone pair rest hpairs hfinished hsatisfied =>
    rw [settle_of_unsatisfied hdone hpairs hfinished hsatisfied]
    refine ⟨rfl, h, ?_, ?_, ?_⟩
    · intro heq
      cases hpairs.symm.trans heq
    · intro pair rest heq
      cases hpairs.symm.trans heq
      exact hfinished
    · intro pair rest heq
      cases hpairs.symm.trans heq
      exact hsatisfied

/-! ## Counting a card -/

/-- A round of which some are left goes to the next player first. -/
theorem drop_rounds {α : Type} {round : List α} {seat n : Nat} (h : seat < round.length) :
    (List.replicate (n + 1) round).flatten.drop seat =
      round[seat] :: (List.replicate (n + 1) round).flatten.drop (seat + 1) := by
  have hlt : seat < (List.replicate (n + 1) round).flatten.length := by
    rw [List.replicate_succ, List.flatten_cons, List.length_append]
    omega
  rw [List.drop_eq_getElem_cons hlt]
  simp only [List.replicate_succ, List.flatten_cons, List.getElem_append_left h]

/-- Dropping one round of many leaves the others. -/
theorem drop_round {α : Type} {round : List α} {n : Nat} :
    (List.replicate (n + 1) round).flatten.drop round.length =
      (List.replicate n round).flatten := by
  rw [List.replicate_succ, List.flatten_cons, List.drop_left]

end DealCursor

namespace Dealer

open DealCursor

variable {d : Dealer} {cards left : Nat} {pair : DealPair}

/-- A card counted is the first of those due for the pair. -/
theorem pairDue_advance (h : InStep d.plan d.seats cards (left + 1) d.cursor)
    (hdone : d.cursor.phase ≠ .done)
    (hfinished : ¬ d.cursor.isFinished d.plan d.seats.length pair = true)
    (hsatisfied : ¬ pair.count.isSatisfied d.cursor.dealt = true) :
    pairDue d.plan d.seats cards d.cursor pair =
      ⟨pair.slot, d.receiver?⟩ :: pairDue d.plan d.seats cards d.advance.cursor pair := by
  have hdealt : d.cursor.dealt < cards := by have := h.dealt; omega
  obtain ⟨n, hn, hn'⟩ := exists_upTo_sub hsatisfied hdealt
  cases hphase : d.cursor.phase with
  | done => exact absurd hphase hdone
  | commonPiles =>
    have hadvance : d.advance.cursor = { d.cursor with dealt := d.cursor.dealt + 1 } := by
      simp [advance, hphase]
    rw [hadvance]
    simp only [pairDue, receiver?, hphase, hn, hn', List.replicate_succ]
  | playerPiles =>
    cases hcollate : d.plan.collate with
    | true =>
      have hseat : d.cursor.seat < d.seats.length := h.seat hphase hcollate
      have hround : d.cursor.seat <
          (d.seats.map fun s => (⟨pair.slot, some s⟩ : DealTarget)).length := by
        rwa [List.length_map]
      have hreceiver : d.receiver? = some d.seats[d.cursor.seat] := by
        simp only [receiver?, hphase, List.getElem?_eq_getElem hseat]
      simp only [pairDue, hphase, hcollate, if_true, hn, drop_rounds hround, List.getElem_map,
        hreceiver]
      by_cases hlast : d.cursor.seat + 1 = d.seats.length
      · have hadvance : d.advance.cursor =
            { d.cursor with seat := 0, dealt := d.cursor.dealt + 1 } := by
          simp [advance, hphase, hcollate, hlast]
        have hlength : d.cursor.seat + 1 =
            (d.seats.map fun s => (⟨pair.slot, some s⟩ : DealTarget)).length := by
          rwa [List.length_map]
        simp only [hadvance, hphase, hn', List.drop_zero]
        rw [hlength, drop_round]
      · have hadvance : d.advance.cursor = { d.cursor with seat := d.cursor.seat + 1 } := by
          simp [advance, hphase, hcollate, hlast]
        simp only [hadvance, hphase, hn]
    | false =>
      have hseat : d.cursor.seat < d.seats.length := by
        simpa [isFinished, isPerPlayer, hphase, hcollate] using hfinished
      have hadvance : d.advance.cursor = { d.cursor with dealt := d.cursor.dealt + 1 } := by
        simp [advance, hphase, hcollate]
      rw [hadvance]
      simp only [pairDue, receiver?, hphase, hcollate, List.drop_eq_getElem_cons hseat, hn, hn',
        List.getElem?_eq_getElem hseat, List.replicate_succ]
      rfl

/-- A card counted changes neither the phase nor what is left to do in it. -/
theorem advance_cursor (d : Dealer) :
    d.advance.cursor.phase = d.cursor.phase ∧ d.advance.cursor.pairs = d.cursor.pairs ∧
      d.advance.cursor.dealt ≤ d.cursor.dealt + 1 ∧
      (d.cursor.seat < d.seats.length → d.advance.cursor.seat < d.seats.length) := by
  unfold advance
  dsimp only
  split
  · split
    · exact ⟨rfl, rfl, Nat.le_refl _, fun h => Nat.zero_lt_of_lt h⟩
    next hnext =>
      refine ⟨rfl, rfl, Nat.le_succ _, fun h => ?_⟩
      have : d.cursor.seat + 1 ≠ d.seats.length := by simpa using hnext
      dsimp only
      omega
  · exact ⟨rfl, rfl, Nat.le_refl _, fun h => h⟩

/-- A card counted is the first of those due, and the counters stay in step. -/
theorem due_advance (h : InStep d.plan d.seats cards (left + 1) d.cursor)
    (hsettled : Settled d.plan d.seats d.cursor) {rest : List DealPair}
    (hpairs : d.cursor.pairs = pair :: rest) :
    due d.plan d.seats cards d.cursor =
        ⟨pair.slot, d.receiver?⟩ :: due d.plan d.seats cards d.advance.cursor ∧
      InStep d.plan d.seats cards left d.advance.cursor := by
  obtain ⟨hphase, hpairs', hdealt, hseat⟩ := d.advance_cursor
  have hdone : d.cursor.phase ≠ .done := by
    intro hd
    cases hpairs.symm.trans (h.done hd)
  refine ⟨?_, h.players, ?_, ?_, fun hd => absurd (hphase ▸ hd) hdone⟩
  · rw [due_cons hpairs, due_cons (hpairs'.trans hpairs), hphase,
      pairDue_advance h hdone (hsettled.finished pair rest hpairs)
        (hsettled.satisfied pair rest hpairs), List.cons_append]
  · have := h.dealt
    omega
  · intro hp hc
    exact hseat (h.seat (hphase ▸ hp) hc)

end Dealer

end HouseRules
