import HouseRules.Error
import HouseRules.Ranking
import HouseRules.Table
import HouseRules.Value

/-!
# Operations

An operation is a verb together with arguments of the right kinds. A call goes in two steps.
`Operation.prepare` checks the call, in this order: there are enough arguments, every pile, player
and phase among them belongs to the game, and each argument is of the kind that the verb wants.
`Operation.run` then carries the operation out, which cannot fail: it answers, and gives the table
afterwards. A move that is not possible now answers `false` and leaves the table as it is.

So a call that fails has no table of its own, and what each verb may change is read off one line of
`run`.

Reference: `OperationResolver.dispatch` (specification 4.3, E3).
-/

namespace HouseRules

/-- In what respect cards are compared. -/
inductive Likeness where
  | attributes
  | face
  | group
  | rank
  deriving Repr, DecidableEq, Inhabited

/-- Whether two cards agree in a respect. -/
def Likeness.holds (ranking : Ranking) : Likeness → Card → Card → Bool
  | .attributes, a, b => a.alike b
  | .face, a, b => a.sameFace b
  | .group, a, b => a.sameGroup b
  | .rank, a, b => ranking.tied a b

/-- A verb with its arguments. -/
inductive Operation where
  | endTurn
  | enterPhase (phase : PhaseId)
  | setStatus (seat : Seat) (status : Status)
  | reverse
  /-- Do all cards agree with the first? -/
  | allLike (respect : Likeness) (cards : List Card)
  | compareRank (a b : Card)
  | outranks (a b : Card)
  | sort (pile : PileId)
  | compareSize (pile : PileId) (n : Int)
  | compareSizes (a b : PileId)
  | hasSize (pile : PileId) (n : Int)
  | allEmpty (piles : List PileId)
  | contains (pile : PileId) (card : CardId)
  | size (pile : PileId)
  | transfer (source target : PileId) (cards : List CardId)
  | transferTop (source target : PileId)
  | transferAll (source target : PileId)
  | exchange (a b : PileId) (cardA cardB : CardId)
  | remove (pile : PileId) (card : CardId)
  | removeAll (piles : List PileId)
  | shuffle (piles : List PileId)
  deriving Repr, DecidableEq

/-! ## Arguments -/

/-- The arguments of a call. -/
structure Call where
  verb : Verb
  values : List Value
  deriving Repr, DecidableEq

namespace Call

/-- The error for an argument of the wrong kind. -/
def wrongKind (c : Call) (index : Nat) (expected : Kind) (actual : Value) : RuntimeError :=
  .wrongArgumentKind c.verb.keyword index expected.keyword actual.kind.keyword

/-- The argument at `index`. -/
def argument (c : Call) (index : Nat) : Except RuntimeError Value :=
  orFail (.wrongArgumentCount c.verb.keyword (index + 1) c.values.length) c.values[index]?

/-- The argument at `index`, read as a kind. -/
def read {α : Type} (c : Call) (index : Nat) (expected : Kind) (view : Value → Option α) :
    Except RuntimeError α := do
  let value ← c.argument index
  orFail (c.wrongKind index expected value) (view value)

/-- The argument at `index` as a player. -/
def seat (c : Call) (index : Nat) : Except RuntimeError Seat :=
  c.read index .player fun
    | .player seat => some seat
    | _ => none

/-- The argument at `index` as a phase. -/
def phase (c : Call) (index : Nat) : Except RuntimeError PhaseId :=
  c.read index .phase fun
    | .phase id => some id
    | _ => none

/-- The argument at `index` as a number. -/
def integer (c : Call) (index : Nat) : Except RuntimeError Int :=
  c.read index .integer fun
    | .integer n => some n
    | _ => none

/-- The argument at `index` as a pile. -/
def pile (c : Call) (index : Nat) : Except RuntimeError PileId :=
  c.read index .pile fun
    | .pile id => some id
    | _ => none

/-- The argument at `index` as piles. -/
def piles (c : Call) (index : Nat) : Except RuntimeError (List PileId) :=
  c.read index .piles fun value => if value.fits .piles then some value.asPiles else none

/-- The argument at `index` as a card. -/
def card (c : Call) (index : Nat) : Except RuntimeError Card :=
  c.read index .card fun
    | .card card => some card
    | _ => none

/-- The argument at `index` as cards. -/
def cards (c : Call) (index : Nat) : Except RuntimeError (List Card) :=
  c.read index .cards fun value => if value.fits .cards then some value.asCards else none

/-- The operation that a call with enough arguments stands for. -/
def operation (c : Call) : Except RuntimeError Operation := do
  match c.verb with
  | .endTurn => return .endTurn
  | .goTo => return .enterPhase (← c.phase 0)
  | .playerWin => return .setStatus (← c.seat 0) .won
  | .playerLose => return .setStatus (← c.seat 0) .lost
  | .reverseDirection => return .reverse
  | .alike => return .allLike .attributes (← c.cards 0)
  | .sameFace => return .allLike .face (← c.cards 0)
  | .sameGroup => return .allLike .group (← c.cards 0)
  | .sameRank => return .allLike .rank (← c.cards 0)
  | .compareRank => return .compareRank (← c.card 0) (← c.card 1)
  | .checkRank => return .outranks (← c.card 0) (← c.card 1)
  | .sortByRank => return .sort (← c.pile 0)
  | .compareSizeTo => return .compareSize (← c.pile 0) (← c.integer 1)
  | .compareSizes => return .compareSizes (← c.pile 0) (← c.pile 1)
  | .checkSize => return .hasSize (← c.pile 0) (← c.integer 1)
  | .checkIfEmpty => return .allEmpty (← c.piles 0)
  | .checkIfContains => return .contains (← c.pile 0) (← c.card 1).id
  | .getSize => return .size (← c.pile 0)
  | .put => return .transfer (← c.pile 0) (← c.pile 1) [(← c.card 2).id]
  | .putMultiple => return .transfer (← c.pile 0) (← c.pile 1) ((← c.cards 2).map (·.id))
  | .putTop => return .transferTop (← c.pile 0) (← c.pile 1)
  | .putAll => return .transferAll (← c.pile 0) (← c.pile 1)
  | .exchange =>
    return .exchange (← c.pile 0) (← c.pile 1) (← c.card 2).id (← c.card 3).id
  | .remove => return .remove (← c.pile 0) (← c.card 1).id
  | .removeAll => return .removeAll (← c.piles 0)
  | .shuffle => return .shuffle (← c.piles 0)

end Call

/-- Whether every pile, player and phase that a value names belongs to the game. -/
def Value.belongs (t : Table) (phases : Nat) : Value → Bool
  | .pile id => id.index < t.board.size
  | .piles ids => ids.all fun id => id.index < t.board.size
  | .player seat => seat.index < t.count
  | .phase id => id.index < phases
  | _ => true

namespace Operation

/-- Checks a call at a table of a game with a number of phases. -/
def prepare (c : Call) (t : Table) (phases : Nat) : Except RuntimeError Operation := do
  let arity := c.verb.signature.arity
  if c.values.length < arity then
    throw (.wrongArgumentCount c.verb.keyword arity c.values.length)
  match c.values.find? fun value => !value.belongs t phases with
  | some value =>
    throw (.unusableArgument c.verb.keyword value.describe "not part of this game")
  | none => c.operation

/-! ## Effects -/

/-- An order as a number. -/
def ofOrdering (o : Ordering) : Outcome :=
  .integer (match o with
    | .lt => -1
    | .eq => 0
    | .gt => 1)

/-- Whether all cards agree with the first. Reference: `all_match`. -/
def agree (same : Card → Card → Bool) : List Card → Bool
  | [] => true
  | first :: rest => rest.all (same first)

/-- The number of cards of a pile. -/
def sizeOf (t : Table) (id : PileId) : Nat := ((t.board.pile? id).map (·.size)).getD 0

/-- The answer to a move: whether there is a board after it, and the table with that board. -/
def moved (t : Table) : Option Board → Outcome × Table
  | some board => (.bool true, { t with board })
  | none => (.bool false, t)

/-- Shuffles piles one after the other. -/
def shuffleAll (t : Table) (ids : List PileId) : Table :=
  ids.foldl (fun t id =>
    let (board, stream) := t.board.shuffle id t.stream
    { t with board, stream }) t

/-- Carries an operation out. -/
def run (ranking : Ranking) (t : Table) : Operation → Outcome × Table
  | .endTurn => (.bool true, t.advanceTurn)
  | .enterPhase phase =>
    (.bool true, t.modifyPlayer t.current fun p => { p with phase := some phase })
  | .setStatus seat status => (.bool true, t.modifyPlayer seat fun p => { p with status })
  | .reverse => (.bool true, { t with direction := t.direction.reversed })
  | .allLike respect cards => (.bool (agree (respect.holds ranking) cards), t)
  | .compareRank a b => (ofOrdering (ranking.compare a b), t)
  | .outranks a b => (.bool (ranking.outranks a b), t)
  | .sort pile =>
    (.bool true, { t with board := t.board.modify pile (·.sort ranking.compare) })
  | .compareSize pile n => (ofOrdering (compare (Int.ofNat (sizeOf t pile)) n), t)
  | .compareSizes a b => (ofOrdering (compare (sizeOf t a) (sizeOf t b)), t)
  | .hasSize pile n => (.bool (Int.ofNat (sizeOf t pile) == n), t)
  | .allEmpty piles => (.bool (piles.all fun id => sizeOf t id == 0), t)
  | .contains pile card => (.bool ((t.board.pile? pile).any (·.contains card)), t)
  | .size pile => (.integer (Int.ofNat (sizeOf t pile)), t)
  | .transfer source target cards => moved t (t.board.transfer source target cards)
  | .transferTop source target => moved t (t.board.transferTop source target)
  | .transferAll source target =>
    (.bool true, { t with board := t.board.transferAll source target })
  | .exchange a b cardA cardB => moved t (t.board.exchange a b cardA cardB)
  | .remove pile card => moved t (t.board.remove pile [card])
  | .removeAll piles => (.bool true, { t with board := piles.foldl Board.removeAll t.board })
  | .shuffle piles => (.bool true, shuffleAll t piles)

/-- Checks a call and carries it out. Reference: `OperationResolver.dispatch`. -/
def dispatch (c : Call) (ranking : Ranking) (phases : Nat) (t : Table) :
    Except RuntimeError (Outcome × Table) := do
  let op ← prepare c t phases
  return op.run ranking t

end Operation

end HouseRules
