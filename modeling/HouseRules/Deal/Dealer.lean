import HouseRules.Board
import HouseRules.Deal.Plan
import HouseRules.Deck

/-!
# Dealing card by card

The dealer goes through a plan one card at a time, so that a table can show the deal. Where it is in
the plan is a phase, the pairs of that phase still to do, and how far the first of them is. After
each card `Dealer.settle` goes on past everything that has got its share, so the dealer knows at
once when it is done.

Settling ends because each step finishes a seat, a pair or a phase. Dealing on to the end takes at
most one call for every card and one more.

Reference: `CardDealer` (specification 4.4).
-/

namespace HouseRules

open Chance (Stream)

/-- What the dealer is dealing. Reference: `DealPhase`. -/
inductive DealPhase where
  | playerPiles
  | commonPiles
  | done
  deriving Repr, DecidableEq, Inhabited

/-- How many phases come after one. -/
def DealPhase.after : DealPhase → Nat
  | .playerPiles => 2
  | .commonPiles => 1
  | .done => 0

/-- Where the dealer is in a plan. -/
structure DealCursor where
  phase : DealPhase
  /-- The pairs of the phase that are not finished. -/
  pairs : List DealPair
  /-- The place in dealing order of the player who is next, while players get cards. -/
  seat : Nat
  /-- Cards given for the first pair: to the player who is next, or to each where dealing is
  collated. -/
  dealt : Nat
  deriving Repr, DecidableEq, Inhabited

namespace DealCursor

/-- The beginning of a plan. -/
def start (plan : DealPlan) : DealCursor := ⟨.playerPiles, plan.playerPiles, 0, 0⟩

/-- The phase after this one, from its beginning. -/
def nextPhase (plan : DealPlan) (c : DealCursor) : DealCursor :=
  match c.phase with
  | .playerPiles => ⟨.commonPiles, plan.commonPiles, 0, 0⟩
  | _ => ⟨.done, [], 0, 0⟩

/-- Whether players get all cards of a pile at once. -/
def isPerPlayer (plan : DealPlan) (c : DealCursor) : Bool :=
  c.phase == .playerPiles && !plan.collate

/-- Whether a pair is finished: every player has had their share of it, or else the pile has. -/
def isFinished (plan : DealPlan) (seats : Nat) (c : DealCursor) (pair : DealPair) : Bool :=
  if c.isPerPlayer plan then seats ≤ c.seat else pair.count.isSatisfied c.dealt

/-- A pair that is not finished though the share is had has a player left to get theirs. -/
theorem seat_lt_of_not_isFinished {plan : DealPlan} {seats : Nat} {c : DealCursor}
    {pair : DealPair} (h : ¬ c.isFinished plan seats pair = true)
    (h' : pair.count.isSatisfied c.dealt = true) : c.seat < seats := by
  unfold isFinished at h
  split at h <;> simp_all

/-- The next phase has fewer phases after it. -/
theorem after_nextPhase_lt {plan : DealPlan} {c : DealCursor} (h : c.phase ≠ .done) :
    (c.nextPhase plan).phase.after < c.phase.after := by
  unfold nextPhase
  cases hp : c.phase <;> simp_all [DealPhase.after]

/-- Goes on past all that has got its share, at a table with a number of seats. -/
def settle (plan : DealPlan) (seats : Nat) (c : DealCursor) : DealCursor :=
  if _hd : c.phase = .done then c
  else
    match _hp : c.pairs with
    | [] => settle plan seats (c.nextPhase plan)
    | pair :: rest =>
      if _hf : c.isFinished plan seats pair then
        settle plan seats { c with pairs := rest, seat := 0, dealt := 0 }
      else if _hs : pair.count.isSatisfied c.dealt then
        settle plan seats { c with seat := c.seat + 1, dealt := 0 }
      else c
termination_by (c.phase.after, c.pairs.length, seats - c.seat)
decreasing_by
  · exact Prod.Lex.left _ _ (after_nextPhase_lt _hd)
  · exact Prod.Lex.right _ (Prod.Lex.left _ _ (by simp [_hp]))
  · have := seat_lt_of_not_isFinished _hf _hs
    exact Prod.Lex.right _ (Prod.Lex.right _ (by omega))

end DealCursor

/-- Whoever deals: the stock, the plan and how far it is carried out. Reference: `CardDealer`. -/
structure Dealer where
  stock : Stock
  plan : DealPlan
  /-- The seats in dealing order. -/
  seats : List Seat
  stream : Stream
  cursor : DealCursor
  deriving Repr

namespace Dealer

/-- Goes on past all that has got its share. -/
def settle (d : Dealer) : Dealer :=
  { d with cursor := d.cursor.settle d.plan d.seats.length }

/-- Shuffles the whole deck and begins the plan again. Reference: `CardDealer.reset`. -/
def reset (d : Dealer) : Dealer :=
  let (stock, stream) := d.stock.shuffle d.plan.passes d.stream
  settle { d with stock, stream, cursor := .start d.plan }

/-- A dealer with a shuffled deck for a number of players. Reference: `CardDealer.new`. -/
def fresh (deck : Deck) (plan : DealPlan) (count : Nat) (stream : Stream) : Dealer :=
  reset {
    stock := .ofDeck deck
    plan
    seats := plan.direction.walk count (max count 1) .first
    stream
    cursor := .start plan }

/-- What is being dealt. -/
def phase (d : Dealer) : DealPhase := d.cursor.phase

/-- Whether the plan is carried out. -/
def isDone (d : Dealer) : Bool := d.phase == .done

/-- The number of cards not dealt. -/
def remaining (d : Dealer) : Nat := d.stock.remaining

/-- The seat that gets the next card, if a player does. -/
def receiver? (d : Dealer) : Option Seat :=
  match d.cursor.phase with
  | .playerPiles => d.seats[d.cursor.seat]?
  | _ => none

/-- The pile that gets the next card under a pair. -/
def target? (d : Dealer) (board : Board) (pair : DealPair) : Option PileId :=
  board.find? pair.slot (d.receiver?.getD .first)

/-- Counts a card as dealt. -/
def advance (d : Dealer) : Dealer :=
  let c := d.cursor
  if c.phase == .playerPiles && d.plan.collate then
    if c.seat + 1 == d.seats.length then
      { d with cursor := { c with seat := 0, dealt := c.dealt + 1 } }
    else { d with cursor := { c with seat := c.seat + 1 } }
  else { d with cursor := { c with dealt := c.dealt + 1 } }

/-- Ends the deal, whatever counts remain. -/
def stop (d : Dealer) : Dealer := { d with cursor := ⟨.done, [], 0, 0⟩ }

/-- What a card dealt to a pile is reported as. -/
def report (card : Card) (pile : Pile) : Option Seat → String
  | some seat => card.describe ++ " to " ++ pile.name ++ " of " ++ seat.describe
  | none => card.describe ++ " to " ++ pile.name

/-- Deals one card and reports it; `none` once the plan is carried out or the deck is used up.
Reference: `CardDealer.deal_next`. -/
def dealNext (d : Dealer) (board : Board) : Option String × Dealer × Board :=
  let d := d.settle
  match d.cursor.pairs with
  | [] => (none, d, board)
  | pair :: _ =>
    let target := (d.target? board pair).bind fun id => (board.pile? id).map (id, ·)
    let (card, stock) := d.stock.deal
    match target, card with
    | some (id, pile), some card =>
      (some (report card pile d.receiver?), settle (advance { d with stock }),
        board.modify id (·.add card))
    | _, _ => (none, stop { d with stock }, board)

/-- Deals until the deal ends, at most `n` times; gives the number of cards dealt. -/
def dealUpTo (n : Nat) (dealt : Nat) (d : Dealer) (board : Board) : Nat × Dealer × Board :=
  match n with
  | 0 => (dealt, d, board)
  | n + 1 =>
    match d.dealNext board with
    | (some _, d, board) => dealUpTo n (dealt + 1) d board
    | (none, d, board) => (dealt, d, board)

/-- Deals until the deal ends; gives the number of cards dealt. Reference: `CardDealer.deal_all`. -/
def dealAll (d : Dealer) (board : Board) : Nat × Dealer × Board :=
  dealUpTo (d.remaining + 1) 0 d board

end Dealer

end HouseRules
