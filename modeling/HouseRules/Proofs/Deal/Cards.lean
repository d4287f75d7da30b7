import HouseRules.Proofs.Board.Cards
import HouseRules.Proofs.Deal.Schedule
import HouseRules.Proofs.Game

/-!
# Dealing loses no card

A dealer whose targets are all on the board takes each card from the stock and puts it on the board,
so the two together hold the same cards before and after. The dealer of a game is such a dealer,
from the beginning and however far the deal has come (`Dealer.ReadyFor`): its plan names declared
piles only, and its seats are those at the table.
-/

namespace HouseRules

open Chance (Stream)

namespace Board

variable {b : Board}

/-- A card that is put where a pile is lies on the board. -/
theorem bag_place {x : DealTarget × Card} (h : b.Serves x.1) :
    (b.place x).bag = b.bag + {x.2} := by
  obtain ⟨id, hid⟩ := h.exists_find?
  simp only [place, hid]
  exact bag_put (find?_lt hid) fun p => p.bag_add x.2

/-- Cards that are put where piles are lie on the board, all of them. -/
theorem bag_foldl_place {xs : List (DealTarget × Card)} (h : ∀ x ∈ xs, b.Serves x.1) :
    (xs.foldl place b).bag = b.bag + (xs.map Prod.snd : List Card) := by
  induction xs generalizing b with
  | nil => exact (add_zero b.bag).symm
  | cons x xs ih =>
    have hlater : ∀ y ∈ xs, (b.place x).Serves y.1 := fun y hy =>
      (h y (List.mem_cons_of_mem _ hy)).congr (clear_place b x).symm
    rw [List.foldl_cons, ih hlater, bag_place (h x List.mem_cons_self), List.map_cons,
      ← Multiset.cons_coe, ← Multiset.singleton_add, add_assoc]

end Board

namespace Dealer

variable {d d' : Dealer} {b : Board} {cards : Nat}

/-- The cards to be dealt are the next ones of the stock. -/
theorem upcoming_map_snd (d : Dealer) (cards : Nat) :
    (d.upcoming cards).map Prod.snd = d.stock.rest.take (d.upcoming cards).length := by
  rw [upcoming, List.zip_eq_zip_take_min, List.map_snd_zip] <;> simp

/-- The cards on the board and in the stock stay the same when all are dealt. -/
theorem bag_dealAll (h : d.InStep cards) (hboard : ∀ x ∈ d.upcoming cards, b.Serves x.1) :
    ∃ n d' b', d.dealAll b = (n, d', b') ∧ d'.InStep cards ∧ d'.upcoming cards = [] ∧
      d'.plan = d.plan ∧ d'.seats = d.seats ∧ d'.stock.deck = d.stock.deck ∧ b'.clear = b.clear ∧
      b'.bag + d'.stock.rest = b.bag + d.stock.rest := by
  obtain ⟨d', hall, hafter, hstep, hnil, -⟩ := dealAll_spec h hboard
  refine ⟨_, d', _, hall, hstep, hnil, hafter.plan, hafter.seats, ?_,
    Board.clear_foldl_place .., ?_⟩
  · rw [hafter.stock]
  · rw [Board.bag_foldl_place hboard, upcoming_map_snd, hafter.stock, add_assoc, Multiset.coe_add,
      List.take_append_drop]

/-! ## The dealer of a game -/

/-- A dealer deals a game to a number of players: the deck, the plan and the seats are those of the
game, the counters are in step, and every pile that is to get a card is on the board. -/
structure ReadyFor (d : Dealer) (g : Game) (count : Nat) : Prop where
  deck : d.stock.deck = g.deck
  plan : d.plan = g.deal
  seats : d.seats = g.deal.direction.order count
  inStep : d.InStep g.deck.size
  served : ∀ x ∈ d.upcoming g.deck.size, (Board.ofLayout g.layout count).Serves x.1

variable {g : Game} {count : Nat}

/-- After shuffling the whole deck the dealer is ready. -/
theorem readyFor_reset (hg : g.WellFormed) (hsome : 0 < count) (hnumbered : count ≤ 255)
    (hdeck : d.stock.deck = g.deck) (hplan : d.plan = g.deal)
    (hseats : d.seats = g.deal.direction.order count) : d.reset.ReadyFor g count := by
  have hne : d.seats ≠ [] := hseats ▸ g.deal.direction.order_ne_nil hsome
  obtain ⟨hstep, hupcoming⟩ := d.reset_spec hne
  refine ⟨hdeck, hplan, hseats, hdeck ▸ hstep, ?_⟩
  intro x hx
  rw [← hdeck, hupcoming, hplan, hseats] at hx
  have hinstance : ∀ pair ∈ g.deal.pairs, ∀ seat : Seat, seat.index < count →
      (Board.ofLayout g.layout count).HasInstance pair.slot seat := by
    intro pair hpair seat hseat
    exact Board.hasInstance_ofLayout (hg.dealt pair hpair) hseat hnumbered
  refine DealPlan.serves_of_mem_schedule ?_ ?_ (List.of_mem_zip hx).1
  · intro pair hpair seat hseat
    exact hinstance pair (List.mem_append_left _ hpair) seat (Direction.mem_order hseat)
  · intro pair hpair
    exact hinstance pair (List.mem_append_right _ hpair) .first hsome

/-- A dealer for a game is ready to deal to a table for its players. -/
theorem readyFor_fresh (hg : g.WellFormed) (hsome : 0 < count) (hnumbered : count ≤ 255)
    (stream : Stream) : (fresh g.deck g.deal count stream).ReadyFor g count :=
  readyFor_reset hg hsome hnumbered rfl rfl (g.deal.direction.walk_first hsome (by omega))

/-- A dealer who is ready deals all, and is ready still. -/
theorem ReadyFor.dealAll (h : d.ReadyFor g count) (hb : b.clear = .ofLayout g.layout count) :
    ∃ n d' b', d.dealAll b = (n, d', b') ∧ d'.ReadyFor g count ∧ b'.clear = b.clear ∧
      b'.bag + d'.stock.rest = b.bag + d.stock.rest := by
  have hboard : ∀ x ∈ d.upcoming g.deck.size, b.Serves x.1 := fun x hx =>
    (h.served x hx).congr (by rw [hb, Board.clear_ofLayout])
  obtain ⟨n, d', b', hall, hstep, hnil, hplan, hseats, hdeck, hclear, hbag⟩ :=
    bag_dealAll h.inStep hboard
  refine ⟨n, d', b', hall, ?_, hclear, hbag⟩
  exact ⟨hdeck.trans h.deck, hplan.trans h.plan, hseats.trans h.seats, hstep, by simp [hnil]⟩

/-- Shuffling the whole deck gathers all of its cards. -/
theorem rest_reset (d : Dealer) : (d.reset.stock.rest : Multiset Card) = d.stock.deck.cards :=
  Multiset.coe_eq_coe.2 (d.stock.rest_shuffle_perm d.plan.passes d.stream)

end Dealer

end HouseRules
