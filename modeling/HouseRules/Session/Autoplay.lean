import HouseRules.Session

/-!
# Playing by itself

A session can be played without anybody choosing. A move is made by trying the actions on offer in
turn: an action that leaves nothing open is performed as it is, any other with each choice for its
first open parameter and the first choice for the rest. The first try that takes effect is the move.

The actions on offer are rotated further from move to move, by a step that the caller picks, so that
different steps play different games.

Reference: none; a caller of `Engine` as specification 6 has one.
-/

namespace HouseRules

/-- A move that was made: the action, and what its first open parameter was filled with. -/
structure Move where
  offer : Offer
  value : Option Value
  deriving Repr, DecidableEq

namespace Session

/-- The first choice of each list, up to the first list that has none. -/
def firstChoices (lists : List OptionList) : List Value :=
  (lists.map (·.values.head?)).takeWhile Option.isSome |>.reduceOption

/-- Performs an action with each value in turn until one takes effect, and says which one did. -/
def tryValues (offer : Offer) (others : List Value) (s : Session) :
    List Value → Except RuntimeError (Option Value) × Session
  | [] => (.ok none, s)
  | value :: rest =>
    match s.perform offer (value :: others) with
    | (.error e, s) => (.error e, s)
    | (.ok true, s) => (.ok (some value), s)
    | (.ok false, s) => tryValues offer others s rest

/-- Performs an action with its choices until one takes effect. -/
def tryOffer (s : Session) (offer : Offer) : Except RuntimeError (Option Move) × Session :=
  match s.options offer with
  | .error e => (.error e, s)
  | .ok [] =>
    match s.perform offer [] with
    | (.error e, s) => (.error e, s)
    | (.ok effective, s) => (.ok (if effective then some ⟨offer, none⟩ else none), s)
  | .ok (first :: others) =>
    match s.tryValues offer (firstChoices others) first.values with
    | (.error e, s) => (.error e, s)
    | (.ok value, s) => (.ok (value.map fun v => ⟨offer, some v⟩), s)

/-- Tries actions in turn until one takes effect. -/
def tryOffers (s : Session) : List Offer → Except RuntimeError (Option Move) × Session
  | [] => (.ok none, s)
  | offer :: rest =>
    match s.tryOffer offer with
    | (.ok none, s) => tryOffers s rest
    | answer => answer

/-- Makes one move, trying the actions on offer from the one at place `start` on, counted around. -/
def moveFrom (s : Session) (start : Nat) : Except RuntimeError (Option Move) × Session :=
  match s.allowed with
  | (.error e, s) => (.error e, s)
  | (.ok offers, s) => s.tryOffers (offers.rotateLeft start)

/-- Makes up to `n` moves, of which the first starts at a place and each later one `step` places
further. Beside the moves it gives the failure that ended play, if one did. -/
def autoplay (step : Nat) : (n start : Nat) → Session → List Move × Option RuntimeError × Session
  | 0, _, s => ([], none, s)
  | n + 1, start, s =>
    match s.moveFrom start with
    | (.error e, s) => ([], some e, s)
    | (.ok none, s) => ([], none, s)
    | (.ok (some move), s) =>
      let (moves, failure, s) := autoplay step n (start + step) s
      (move :: moves, failure, s)

end Session

end HouseRules
