import HouseRules.Proofs.Deal.Run

/-!
# A deal follows its schedule

A dealer who begins has the whole schedule of the plan before them, each target with the card of the
shuffled deck that is on its turn (`Dealer.reset_spec`). So the calls deal the cards of the deck
in their order onto the targets of the schedule in their order, the calls after that do nothing, and
dealing to the end may be begun after any number of calls (`Dealer.follows_of_upcoming`).

A schedule is written for a number of cards because a share may be everything that is left. For
fewer cards it is the beginning of the one for more (`DealPlan.take_schedule`), so all of them are
beginnings of one schedule that has no end where a share has none.

Reference: `CardDealer` (specification 4.4, 8).
-/

namespace HouseRules

/-! ## Dealing order -/

/-- The seats of a table in dealing order: the first one, and then all others around the table. -/
def Direction.order (d : Direction) (count : Nat) : List Seat :=
  match d with
  | .clockwise => (List.range count).map Seat.mk
  | .counterclockwise => (List.range count).map fun i => ⟨(count - i) % count⟩

namespace Direction

variable {count : Nat}

/-- The seats in a direction are seats of the table. -/
theorem mem_order {d : Direction} {seat : Seat} (h : seat ∈ d.order count) :
    seat.index < count := by
  cases d with
  | clockwise =>
    obtain ⟨i, hi, rfl⟩ := List.mem_map.1 h
    exact List.mem_range.1 hi
  | counterclockwise =>
    obtain ⟨i, hi, rfl⟩ := List.mem_map.1 h
    exact Nat.mod_lt _ (Nat.zero_lt_of_lt (List.mem_range.1 hi))

/-- Where there is a seat, the order of seats in a direction is not empty. -/
theorem order_ne_nil (d : Direction) (h : 0 < count) : d.order count ≠ [] := by
  have hrange : List.range count ≠ [] := by
    simpa [List.range_eq_nil] using Nat.pos_iff_ne_zero.1 h
  cases d <;> simpa only [order, ne_eq, List.map_eq_nil_iff] using hrange

/-- A walk whose steps are `k` seats long. -/
theorem walk_eq_map {d : Direction} {k : Nat} (hcount : count ≤ 256)
    (hstep : ∀ s : Seat, d.step s count = .ofNat ((s.index + k) % count)) (h : 0 < count) (n : Nat)
    {s : Seat} (hs : s.index < count) :
    d.walk count n s = (List.range n).map fun i => ⟨(s.index + i * k) % count⟩ := by
  induction n generalizing s with
  | zero => rfl
  | succ n ih =>
    have hlt : (s.index + k) % count < count := Nat.mod_lt _ h
    have hnext : d.step s count = ⟨(s.index + k) % count⟩ := by
      rw [hstep, Seat.ofNat, Nat.mod_eq_of_lt (by omega)]
    rw [walk, hnext, ih hlt, List.range_succ_eq_map, List.map_cons, List.map_map]
    congr 1
    · rw [Nat.zero_mul, Nat.add_zero, Nat.mod_eq_of_lt hs]
    · refine List.map_congr_left fun i _ => ?_
      simp only [Function.comp_apply, Nat.succ_eq_add_one, Nat.mod_add_mod, Nat.add_one_mul,
        Nat.add_assoc, Nat.add_comm k]

/-- The dealer goes round the table in dealing order. -/
theorem walk_first (d : Direction) (h : 0 < count) (hcount : count ≤ 256) :
    d.walk count (max count 1) .first = d.order count := by
  have hmax : max count 1 = count := Nat.max_eq_left h
  rw [hmax]
  cases d with
  | clockwise =>
    have hstep : ∀ s : Seat, clockwise.step s count = .ofNat ((s.index + 1) % count) := fun s => by
      rw [step, hmax]
    rw [walk_eq_map hcount hstep h count (s := .first) h, order]
    refine List.map_congr_left fun i hi => ?_
    rw [Nat.mul_one, Seat.first, Nat.zero_add, Nat.mod_eq_of_lt (List.mem_range.1 hi)]
  | counterclockwise =>
    have hstep : ∀ s : Seat,
        counterclockwise.step s count = .ofNat ((s.index + (count - 1)) % count) := fun s => by
      rw [step, hmax, Nat.add_sub_assoc h]
    rw [walk_eq_map hcount hstep h count (s := .first) h, order]
    refine List.map_congr_left fun i hi => congrArg Seat.mk ?_
    -- `i` steps of `count - 1` seats and `i` seats more are `i` times around the table.
    have hround : i * (count - 1) + i = i * count := by
      rw [← Nat.mul_succ, Nat.succ_eq_add_one, Nat.sub_add_cancel h]
    have hi' : i < count := List.mem_range.1 hi
    cases i with
    | zero => simp [Seat.first]
    | succ i =>
      have hsum : Seat.first.index + (i + 1) * (count - 1) = (count - (i + 1)) + i * count := by
        have : (i + 1) * count = i * count + count := Nat.succ_mul ..
        simp only [Seat.first]
        omega
      rw [hsum, Nat.add_mul_mod_self_right]

end Direction

/-! ## Schedules for fewer and for more cards -/

namespace DealPlan

variable {plan : DealPlan} {seats : List Seat} {cards m n : Nat}

/-- The schedule is where the cards go of players' piles and of shared ones, cut to the number of
cards. -/
theorem schedule_eq (plan : DealPlan) (seats : List Seat) (cards : Nat) :
    plan.schedule seats cards =
      (plan.targets seats cards plan.playerPiles plan.commonPiles).take cards := rfl

/-- Lists with one beginning have one beginning when others follow that have one. -/
theorem take_append_congr {α : Type} {xs xs' ys ys' : List α} (hx : xs.take m = xs'.take m)
    (hy : ys.take m = ys'.take m) : (xs ++ ys).take m = (xs' ++ ys').take m := by
  have hlength : min m xs.length = min m xs'.length := by
    simpa only [List.length_take] using congrArg List.length hx
  have hrest : m - xs.length = m - xs'.length := by omega
  have hshort : ∀ zs : List α, zs.take (m - xs'.length) = (zs.take m).take (m - xs'.length) := by
    intro zs
    rw [List.take_take, Nat.min_eq_left (Nat.sub_le ..)]
  rw [List.take_append, List.take_append, hx, hrest, hshort ys, hy, ← hshort ys']

/-- Lists that agree up to a length still do when they are put together. -/
theorem take_flatMap_congr {α β : Type} {f g : α → List β} (h : ∀ x, (f x).take m = (g x).take m)
    (xs : List α) : (xs.flatMap f).take m = (xs.flatMap g).take m := by
  induction xs with
  | nil => rfl
  | cons x xs ih =>
    rw [List.flatMap_cons, List.flatMap_cons]
    exact take_append_congr (h x) ih

/-- A shared pile gets its share whatever number of cards it is counted in. -/
theorem take_commonTargets (h : m ≤ n) (pair : DealPair) :
    (commonTargets n pair).take m = (commonTargets m pair).take m := by
  obtain ⟨slot, count⟩ := pair
  cases count with
  | exactly _ => rfl
  | all =>
    simp only [commonTargets, DealCount.upTo, List.take_replicate, Nat.min_eq_left h, Nat.min_self]

/-- Rounds without end begin with any number of rounds. -/
theorem take_rounds {α : Type} {round : List α} (hround : round ≠ []) (h : m ≤ n) :
    (List.replicate n round).flatten.take m = (List.replicate m round).flatten.take m := by
  have hlength : m ≤ (List.replicate m round).flatten.length := by
    have hpos := List.length_pos_of_ne_nil hround
    rw [List.length_flatten, List.map_replicate, List.sum_replicate_nat]
    exact Nat.le_mul_of_pos_right m hpos
  rw [← Nat.add_sub_of_le h, List.replicate_add, List.flatten_append,
    List.take_append_of_le_length hlength]

/-- So do the players' piles. -/
theorem take_playerTargets (hseats : seats ≠ []) (h : m ≤ n) (collate : Bool) (pair : DealPair) :
    (playerTargets collate seats n pair).take m = (playerTargets collate seats m pair).take m := by
  obtain ⟨slot, count⟩ := pair
  cases count with
  | exactly _ => rfl
  | all =>
    cases collate with
    | true =>
      exact take_rounds (by simpa only [ne_eq, List.map_eq_nil_iff] using hseats) h
    | false =>
      cases seats with
      | nil => exact absurd rfl hseats
      | cons seat later =>
        -- The first player gets everything.
        have hfirst : ∀ k, m ≤ k → ((List.replicate k (⟨slot, some seat⟩ : DealTarget)) ++
            later.flatMap fun seat => List.replicate k (⟨slot, some seat⟩ : DealTarget)).take m =
              List.replicate m ⟨slot, some seat⟩ := fun k hk => by
          rw [List.take_append_of_le_length (by simpa using hk), List.take_replicate,
            Nat.min_eq_left hk]
        exact (hfirst n h).trans (hfirst m (Nat.le_refl m)).symm

/-- The schedule for fewer cards is the beginning of the one for more. -/
theorem take_schedule (plan : DealPlan) (hseats : seats ≠ []) (h : m ≤ n) :
    (plan.schedule seats n).take m = plan.schedule seats m := by
  rw [schedule_eq, schedule_eq, List.take_take, Nat.min_eq_left h]
  exact take_append_congr (take_flatMap_congr (take_playerTargets hseats h plan.collate) _)
    (take_flatMap_congr (take_commonTargets h) _)

/-- A target is a pile of a seat under a pair of players' piles, or one that all share. -/
theorem mem_targets {target : DealTarget} {players common : List DealPair}
    (h : target ∈ plan.targets seats cards players common) :
    (∃ pair ∈ players, ∃ seat ∈ seats, target = ⟨pair.slot, some seat⟩) ∨
      ∃ pair ∈ common, target = ⟨pair.slot, none⟩ := by
  rcases List.mem_append.1 h with h | h
  · obtain ⟨pair, hpair, hmem⟩ := List.mem_flatMap.1 h
    refine .inl ⟨pair, hpair, ?_⟩
    unfold playerTargets at hmem
    split at hmem
    · obtain ⟨round, hround, hmem⟩ := List.mem_flatten.1 hmem
      rw [List.eq_of_mem_replicate hround] at hmem
      obtain ⟨seat, hseat, rfl⟩ := List.mem_map.1 hmem
      exact ⟨seat, hseat, rfl⟩
    · obtain ⟨seat, hseat, hmem⟩ := List.mem_flatMap.1 hmem
      exact ⟨seat, hseat, List.eq_of_mem_replicate hmem⟩
  · obtain ⟨pair, hpair, hmem⟩ := List.mem_flatMap.1 h
    exact .inr ⟨pair, hpair, List.eq_of_mem_replicate hmem⟩

/-- A board with the piles of a plan has those of its schedule. -/
theorem serves_of_mem_schedule {b : Board}
    (hplayers : ∀ pair ∈ plan.playerPiles, ∀ seat ∈ seats, b.HasInstance pair.slot seat)
    (hcommon : ∀ pair ∈ plan.commonPiles, b.HasInstance pair.slot .first) {target : DealTarget}
    (h : target ∈ plan.schedule seats cards) : b.Serves target := by
  rcases mem_targets (List.mem_of_mem_take h) with
    ⟨pair, hpair, seat, hseat, heq⟩ | ⟨pair, hpair, heq⟩
  · rw [heq]
    exact hplayers pair hpair seat hseat
  · rw [heq]
    exact hcommon pair hpair

end DealPlan

namespace Dealer

open DealCursor
open Chance (Stream)

variable {d : Dealer} {b : Board} {cards : Nat}

/-! ## A dealer who begins -/

/-- Elements beyond the length of the other list are not paired. -/
theorem zip_take_length {α β : Type} (xs : List α) (ys : List β) :
    (xs.take ys.length).zip ys = xs.zip ys := by
  have htake : (xs.zip ys).take ys.length = (xs.take ys.length).zip (ys.take ys.length) :=
    List.take_zipWith
  rw [List.take_length] at htake
  rw [← htake, List.take_of_length_le]
  rw [List.length_zip]
  exact Nat.min_le_right ..

/-- A dealer who has shuffled the deck has all of the plan before them. -/
theorem reset_spec (d : Dealer) (hseats : d.seats ≠ []) :
    d.reset.InStep d.stock.deck.size ∧
      d.reset.upcoming d.stock.deck.size =
        (d.plan.schedule d.seats d.stock.deck.size).zip d.reset.stock.rest := by
  have hlength : d.reset.stock.rest.length = d.stock.deck.size :=
    (d.stock.rest_shuffle_perm d.plan.passes d.stream).length_eq
  have hstart : DealCursor.InStep d.plan d.seats d.stock.deck.size d.reset.stock.rest.length
      (.start d.plan) :=
    .begin hseats (Nat.le_of_eq hlength) .playerPiles nofun
  obtain ⟨hdue, hstep, -⟩ := DealCursor.settle_spec hstart
  refine ⟨hstep, ?_⟩
  have hall : d.reset.upcoming d.stock.deck.size =
      (d.plan.targets d.seats d.stock.deck.size d.plan.playerPiles d.plan.commonPiles).zip
        d.reset.stock.rest :=
    congrArg (List.zip · d.reset.stock.rest) (hdue.trans (due_begin ..))
  rw [hall, DealPlan.schedule_eq, ← hlength, zip_take_length]

/-! ## The schedule, call by call -/

/-- The next call deals a card to a target, that is, onto the pile the board finds for it, and
reports it. -/
def Deals (d : Dealer) (b : Board) (target : DealTarget) (card : Card) : Prop :=
  ∃ text d' id, d.dealNext b = (some text, d', b.modify id (·.add card)) ∧ text ≠ "" ∧
    b.find? target.slot (target.receiver.getD .first) = some id ∧
    (b.size ≤ 65536 → b.IsInstance target.slot (target.receiver.getD .first) id)

/-- A dealer deals cards of an order by a schedule. -/
structure Follows (d : Dealer) (b : Board) (schedule : List DealTarget) (order : List Card) :
    Prop where
  /-- The call after `k` others deals the card at place `k` to the target at place `k`. -/
  deals : ∀ (k : Nat) target, schedule[k]? = some target →
    ∃ card, order[k]? = some card ∧ (calls k d b).1.Deals (calls k d b).2 target card
  /-- After the end of the schedule a call does nothing. -/
  rests : ∀ k, schedule.length ≤ k →
    ∃ d', (calls k d b).1.dealNext (calls k d b).2 = (none, d', (calls k d b).2)
  /-- Dealing to the end deals what is left of the schedule, after whatever number of calls. -/
  dealAll : ∀ k, ∃ d', (calls k d b).1.dealAll (calls k d b).2 =
    (schedule.length - k, d', (calls schedule.length d b).2) ∧ d'.isDone = true

/-- A dealer with the whole schedule before them follows it. -/
theorem follows_of_upcoming {schedule : List DealTarget} {order : List Card} (h : d.InStep cards)
    (hupcoming : d.upcoming cards = schedule.zip order) (hlength : schedule.length ≤ order.length)
    (hboard : ∀ x ∈ d.upcoming cards, b.Serves x.1) : d.Follows b schedule order := by
  have hlength' : (d.upcoming cards).length = schedule.length := by
    rw [hupcoming, List.length_zip, Nat.min_eq_left hlength]
  have hserves : ∀ k, ∀ x ∈ (d.upcoming cards).drop k,
      (((d.upcoming cards).take k).foldl Board.place b).Serves x.1 := fun k x hx =>
    (hboard x (List.mem_of_mem_drop hx)).congr (Board.clear_foldl_place ..).symm
  refine ⟨?_, ?_, ?_⟩
  · intro k target htarget
    obtain ⟨d', hcalls, hstep, hlater⟩ := calls_spec k h hboard
    have hk : k < schedule.length := (List.getElem?_eq_some_iff.1 htarget).1
    have hk' : k < order.length := Nat.lt_of_lt_of_le hk hlength
    have hcard : order[k]? = some order[k] := List.getElem?_eq_getElem hk'
    have hnext : (d.upcoming cards)[k]? = some (target, order[k]) := by
      rw [hupcoming, List.getElem?_zip_eq_some]
      exact ⟨htarget, hcard⟩
    obtain ⟨hlt, hget⟩ := List.getElem?_eq_some_iff.1 hnext
    have hcons := List.drop_eq_getElem_cons hlt
    rw [hget] at hcons
    obtain ⟨text, d'', id, hcall, htext, hid, -⟩ := dealNext_cons hstep (hlater.trans hcons)
      (hserves k (target, order[k]) (hcons ▸ List.mem_cons_self))
    rw [hcalls]
    exact ⟨order[k], hcard, text, d'', id, hcall, htext, hid,
      fun hsize => Board.isInstance_of_find? hsize hid⟩
  · intro k hk
    obtain ⟨d', hcalls, hstep, hlater⟩ := calls_spec k h hboard
    have hnil : d'.upcoming cards = [] := by
      rw [hlater, List.drop_eq_nil_of_le (hlength' ▸ hk)]
    obtain ⟨d'', hcall, -⟩ := dealNext_nil hstep hnil
    rw [hcalls]
    exact ⟨d'', hcall⟩
  · intro k
    obtain ⟨d', hcalls, hstep, hlater⟩ := calls_spec k h hboard
    obtain ⟨d'', hall, -, -, -, hdone⟩ := dealAll_spec hstep (hlater ▸ hserves k)
    obtain ⟨_, hend, -⟩ := calls_spec schedule.length h hboard
    refine ⟨d'', ?_, hdone⟩
    rw [hcalls, hall, hlater, hend, ← List.foldl_append, List.take_append_drop, List.length_drop,
      hlength', List.take_of_length_le (Nat.le_of_eq hlength')]

/-- A new dealer deals the deck, in the order shuffling gave it, by the schedule of the plan, and
the schedules for all numbers of cards are beginnings of each other. -/
theorem fresh_follows_schedule (deck : Deck) (plan : DealPlan) (count : Nat) (stream : Stream)
    (b : Board) (hcount : 0 < count) (hcount' : count ≤ 255)
    (hplayers : ∀ pair ∈ plan.playerPiles, ∀ seat : Seat, seat.index < count →
      b.HasInstance pair.slot seat)
    (hcommon : ∀ pair ∈ plan.commonPiles, b.HasInstance pair.slot .first) :
    (fresh deck plan count stream).Follows b
        (plan.schedule (plan.direction.order count) deck.size)
        (Chance.shuffleTimes plan.passes deck.cards stream).1 ∧
      ∀ m n, m ≤ n → (plan.schedule (plan.direction.order count) n).take m =
        plan.schedule (plan.direction.order count) m := by
  have hseats : plan.direction.order count ≠ [] := plan.direction.order_ne_nil hcount
  refine ⟨?_, fun m n h => plan.take_schedule hseats h⟩
  have hfresh : fresh deck plan count stream =
      reset ⟨.ofDeck deck, plan, plan.direction.order count, stream, .start plan⟩ := by
    rw [fresh, plan.direction.walk_first hcount (by omega)]
  obtain ⟨hstep, hupcoming⟩ :=
    reset_spec ⟨.ofDeck deck, plan, plan.direction.order count, stream, .start plan⟩ hseats
  rw [hfresh]
  refine follows_of_upcoming hstep hupcoming ?_ ?_
  · have horder := (Chance.shuffleTimes_perm plan.passes deck.cards stream).length_eq
    exact horder ▸ plan.length_schedule_le ..
  · intro x hx
    rw [hupcoming] at hx
    refine DealPlan.serves_of_mem_schedule ?_ hcommon (List.of_mem_zip hx).1
    intro pair hpair seat hseat
    exact hplayers pair hpair seat (Direction.mem_order hseat)

/-! ## Two rounds and the rest -/

/-- Five cards. -/
def fiveCards : Deck := .ofCards "five" ((List.range 5).map fun i => ⟨i, "card", none⟩)

/-- Two cards to each player in turn and the rest to a pile that all share, against the clock. -/
def twoEach : DealPlan where
  passes := 0
  direction := .counterclockwise
  collate := true
  playerPiles := [⟨⟨0⟩, .exactly 2⟩]
  commonPiles := [⟨⟨1⟩, .all⟩]

/-- The hands of two players and a pile that they share. -/
def handsAndDraw : Board where
  piles := [⟨"hand", ⟨0⟩, some ⟨0⟩, { owner := .player }, []⟩,
    ⟨"hand", ⟨0⟩, some ⟨1⟩, { owner := .player }, []⟩, ⟨"draw", ⟨1⟩, none, {}, []⟩]
  removed := []

/-- Two rounds from the first player on, and one card is left for the pile. -/
theorem twoEach_follows_schedule :
    (fresh fiveCards twoEach 2 (.ofSeed 0)).Follows handsAndDraw
      [⟨⟨0⟩, some ⟨0⟩⟩, ⟨⟨0⟩, some ⟨1⟩⟩, ⟨⟨0⟩, some ⟨0⟩⟩, ⟨⟨0⟩, some ⟨1⟩⟩, ⟨⟨1⟩, none⟩]
      fiveCards.cards := by
  have hplayers : ∀ pair ∈ twoEach.playerPiles, ∀ seat : Seat, seat.index < 2 →
      handsAndDraw.HasInstance pair.slot seat := by
    intro pair hpair seat hseat
    obtain rfl := List.mem_singleton.1 hpair
    obtain ⟨i⟩ := seat
    match i, hseat with
    | 0, _ => exact ⟨_, .head _, rfl, .inl rfl⟩
    | 1, _ => exact ⟨_, .tail _ (.head _), rfl, .inl rfl⟩
  have hcommon : ∀ pair ∈ twoEach.commonPiles, handsAndDraw.HasInstance pair.slot .first := by
    intro pair hpair
    obtain rfl := List.mem_singleton.1 hpair
    exact ⟨_, .tail _ (.tail _ (.head _)), rfl, .inr rfl⟩
  exact (fresh_follows_schedule fiveCards twoEach 2 (.ofSeed 0) handsAndDraw (by decide) (by decide)
    hplayers hcommon).1

end Dealer

end HouseRules
