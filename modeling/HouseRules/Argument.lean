import HouseRules.Error
import HouseRules.Table
import HouseRules.Token
import HouseRules.Value

/-!
# Finding the arguments of a call

The parameters written in rule files become values: those left open take the next of the values that
the caller supplies, the others are looked up at the table. An open parameter for a list takes every
following value that does for its kind, and joins what they hold. Values are taken from the front,
so what is left is always a tail of what was supplied, and each function gives that tail back, also
when it fails.

`Token.arguments` shapes the values to the signature of a verb: what follows the last parameter of a
variadic verb joins it.

Reference: `ParamResolver` (specification 4.5, E4).
-/

namespace HouseRules

namespace Table

/-- The seat that a reference to a player means. -/
def seatOf (t : Table) : PlayerRef → Seat
  | .current => t.current
  | .next => t.nextSeat
  | .previous => t.previousSeat
  | .first => .first

/-- The seat that owns a selected pile. -/
def ownerSeat (t : Table) : OwnerRef → Seat
  | .current => t.current
  | .next => t.nextSeat
  | .previous => t.previousSeat

/-- The pile that a selector means. -/
def select? (t : Table) (selector : PileSelector) : Option PileId :=
  t.board.find? selector.slot (t.ownerSeat selector.owner)

end Table

/-- A result together with the supplied values that are left. -/
abbrev Supplied (α : Type) := Except RuntimeError α × List Value

namespace Token

/-- The error for a parameter that has no value. -/
def unresolved (context operand reason : String) : RuntimeError :=
  .unusableArgument context operand reason

/-- The pile that a selector means, which has to be there. -/
def selected (t : Table) (context : String) (selector : PileSelector) :
    Except RuntimeError PileId :=
  let n := selector.slot.index
  orFail (unresolved context s!"pile slot {n}" "no such pile") (t.select? selector)

/-- As `selected`, with the pile itself. -/
def selectedPile (t : Table) (context : String) (selector : PileSelector) :
    Except RuntimeError Pile := do
  let id ← selected t context selector
  orFail (unresolved context id.describe "no such pile") (t.board.pile? id)

/-- The value of a parameter that is not left open. Reference: `ParamResolver.constant`. -/
def constant (t : Table) (context : String) : Token → Except RuntimeError Value
  | .player who => return .player (t.seatOf who)
  | .pile selector => return .pile (← selected t context selector)
  | .piles slot => return .piles (t.board.instances slot)
  | .top selector => do
    let pile ← selectedPile t context selector
    let card ← orFail (unresolved context ("top." ++ pile.name) "pile is empty") pile.top?
    return .card card
  | .bottom selector => do
    let pile ← selectedPile t context selector
    let card ← orFail (unresolved context ("bottom." ++ pile.name) "pile is empty") pile.bottom?
    return .card card
  | .contents selector => return .cards (← selectedPile t context selector).cards
  | .phase id => return .phase id
  | .integer n => return .integer n
  | .text s => return .text s
  | .placeholder kind =>
    throw (unresolved context kind.keyword "placeholder is not a constant")

/-- The value of an open parameter: the next supplied one, or for a list all that follow and do.
Reference: `ParamResolver.take`. -/
def take (context : String) (kind : Kind) (index : Nat) (supplied : List Value) :
    Supplied Value :=
  match supplied with
  | [] => (.error (unresolved context kind.keyword "no value supplied"), [])
  | value :: rest =>
    if !value.fits kind then
      (.error (.wrongArgumentKind context index kind.keyword value.kind.keyword), supplied)
    else if kind.isArray then
      (.ok (Value.gather kind (supplied.takeWhile (·.fits kind))),
        supplied.dropWhile (·.fits kind))
    else (.ok value, rest)

/-- The value of a parameter. Reference: `ParamResolver.resolve`. -/
def resolve (t : Table) (context : String) (index : Nat) (supplied : List Value) :
    Token → Supplied Value
  | .placeholder kind => take context kind index supplied
  | token => (constant t context token, supplied)

/-- The values of parameters, the first of which is numbered `index`. -/
def resolveFrom (t : Table) (context : String) (index : Nat) (supplied : List Value) :
    List Token → Supplied (List Value)
  | [] => (.ok [], supplied)
  | token :: tokens =>
    match resolve t context index supplied token with
    | (.error e, rest) => (.error e, rest)
    | (.ok value, rest) =>
      let (values, rest) := resolveFrom t context (index + 1) rest tokens
      (values.map (value :: ·), rest)

/-- The values of parameters. Reference: `ParamResolver.resolve_all`. -/
def resolveAll (t : Table) (context : String) (supplied : List Value) (tokens : List Token) :
    Supplied (List Value) :=
  resolveFrom t context 0 supplied tokens

/-- Joins further values to a list value; the first of them is numbered `index`. -/
def joinExtras (verb : Verb) (kind : Kind) (index : Nat) (joined : Value) :
    List Value → Except RuntimeError Value
  | [] => .ok joined
  | extra :: extras => do
    let joined ← orFail
      (.wrongArgumentKind verb.keyword index kind.keyword extra.kind.keyword) (joined.merge? extra)
    joinExtras verb kind (index + 1) joined extras

/-- Brings values to the number of parameters of a verb, joining those past the last. -/
def shape (verb : Verb) (context : String) (values : List Value) :
    Except RuntimeError (List Value) := do
  let signature := verb.signature
  let arity := signature.arity
  if !signature.variadic || values.length ≤ arity then return values
  let kind := (signature.kindAt? (arity - 1)).getD .cards
  let last ← orFail (unresolved context verb.keyword "variadic parameter is not an array")
    ((values[arity - 1]?).bind (·.coerce? kind))
  let joined ← joinExtras verb kind arity last (values.drop arity)
  return values.take (arity - 1) ++ [joined]

/-- The arguments of a verb. Reference: `ParamResolver.arguments`. -/
def arguments (t : Table) (context : String) (verb : Verb) (supplied : List Value)
    (tokens : List Token) : Supplied (List Value) :=
  if !verb.signature.accepts tokens.length then
    (.error (.wrongArgumentCount verb.keyword verb.signature.arity tokens.length), supplied)
  else
    let (values, rest) := resolveAll t context supplied tokens
    (values.bind (shape verb context), rest)

end Token

end HouseRules
