import HouseRules.Card
import HouseRules.Graph.Id
import HouseRules.Pile.Policy
import HouseRules.Verb

/-!
# Values

What verbs are called with. One card does where cards are wanted and one pile where piles are, so a
value can be read as a list of cards or of piles (`Value.asCards`, `Value.asPiles`); the conversions
between kinds and the joining of lists are those readings.

Reference: `Value`, `Outcome` (specification 4.3, E4).
-/

namespace HouseRules

/-- An argument of a verb. Reference: `Value`. -/
inductive Value where
  | player (seat : Seat)
  | card (card : Card)
  | cards (cards : List Card)
  | pile (id : PileId)
  | piles (ids : List PileId)
  | phase (id : PhaseId)
  | text (text : String)
  | integer (n : Int)
  deriving Repr, DecidableEq, Inhabited

namespace Value

/-- The kind of a value. -/
def kind : Value → Kind
  | .player _ => .player
  | .card _ => .card
  | .cards _ => .cards
  | .pile _ => .pile
  | .piles _ => .piles
  | .phase _ => .phase
  | .text _ => .text
  | .integer _ => .integer

/-- Whether a value does for a parameter of a kind. -/
def fits (v : Value) (kind : Kind) : Bool := v.kind.satisfies kind

/-- How messages write a value. -/
def describe : Value → String
  | .player seat => seat.describe
  | .card c => c.describe
  | .cards cs =>
    let n := cs.length
    s!"{n} cards"
  | .pile id => id.describe
  | .piles ids =>
    let n := ids.length
    s!"{n} piles"
  | .phase id => id.describe
  | .text s => "\"" ++ s ++ "\""
  | .integer n => s!"{n}"

/-- The cards of a value, none if it holds no cards. -/
def asCards : Value → List Card
  | .card c => [c]
  | .cards cs => cs
  | _ => []

/-- The piles of a value, none if it holds no piles. -/
def asPiles : Value → List PileId
  | .pile id => [id]
  | .piles ids => ids
  | _ => []

/-- The list value of an array kind that holds what some values hold. -/
def gather (kind : Kind) (values : List Value) : Value :=
  if kind = .piles then .piles (values.flatMap asPiles) else .cards (values.flatMap asCards)

/-- The value as one of exactly the given kind, if it does for that kind. Reference:
`Value.coerce`. -/
def coerce? (v : Value) (kind : Kind) : Option Value :=
  if !v.fits kind then none
  else if kind.isArray then some (gather kind [v])
  else some v

/-- Appends what another value holds to a list value. Reference: `Value.merge`. -/
def merge? (v other : Value) : Option Value :=
  if v.kind.isArray && other.fits v.kind then some (gather v.kind [v, other]) else none

end Value

/-- What a call of a verb answers. Reference: `Outcome`. -/
inductive Outcome where
  | bool (value : Bool)
  | integer (n : Int)
  deriving Repr, DecidableEq, Inhabited

namespace Outcome

/-- Whether the call took effect; a number always counts as an effect. -/
def tookEffect : Outcome → Bool
  | .bool value => value
  | .integer _ => true

/-- The answer as yes or no. -/
def asBool? : Outcome → Option Bool
  | .bool value => some value
  | .integer _ => none

/-- The answer as a number. -/
def asInteger? : Outcome → Option Int
  | .integer n => some n
  | .bool _ => none

end Outcome

end HouseRules
