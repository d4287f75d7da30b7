/-!
# Verbs and their signatures

The words with which rule files act and ask: 26 verbs, each with a signature. A signature lists the
kinds of the parameters, whether the last one may be given in several parts, and what the verb
answers with. All knowledge about a verb's parameters is in this one table, which the reader of rule
files, the resolution of arguments and their check before a call all look up.

Reference: `Operation`, `Signature`, `ParamKind` (specification 4.3, E3).
-/

namespace HouseRules

/-- The kinds of values that verbs take. Reference: `ParamKind`. -/
inductive Kind where
  | player
  | card
  | cards
  | pile
  | piles
  | phase
  | text
  | integer
  deriving Repr, DecidableEq, Inhabited

namespace Kind

/-- Every kind. -/
def all : List Kind := [.player, .card, .cards, .pile, .piles, .phase, .text, .integer]

/-- The word for a kind, which also leaves a parameter of that kind open. -/
def keyword : Kind → String
  | .player => "player"
  | .card => "card"
  | .cards => "cards"
  | .pile => "pile"
  | .piles => "piles"
  | .phase => "phase"
  | .text => "string"
  | .integer => "integer"

/-- The kind a word names. -/
def ofWord? (word : String) : Option Kind := all.find? (·.keyword == word)

/-- Whether values of the kind are lists. -/
def isArray : Kind → Bool
  | .cards | .piles => true
  | _ => false

/-- Whether a value of the first kind does for a parameter of the second: the same kind, or one
card or pile for a list of them. -/
def satisfies (given wanted : Kind) : Bool :=
  given == wanted || (given == .card && wanted == .cards) || (given == .pile && wanted == .piles)

end Kind

/-- What rule files can do and ask. Reference: `Operation`. -/
inductive Verb where
  | endTurn
  | goTo
  | playerWin
  | playerLose
  | reverseDirection
  | alike
  | sameFace
  | sameGroup
  | sameRank
  | compareRank
  | checkRank
  | sortByRank
  | compareSizeTo
  | compareSizes
  | checkSize
  | checkIfEmpty
  | checkIfContains
  | getSize
  | put
  | putMultiple
  | putTop
  | putAll
  | exchange
  | remove
  | removeAll
  | shuffle
  deriving Repr, DecidableEq, Inhabited

/-- What a verb answers with. -/
inductive ReturnKind where
  | boolean
  | integer
  deriving Repr, DecidableEq, Inhabited

/-- A declared parameter. Reference: `Param`. -/
structure Parameter where
  kind : Kind
  /-- For a card, the parameter that holds the pile it is chosen from. -/
  source : Option Nat := none
  deriving Repr, DecidableEq, Inhabited

/-- The parameters and the answer of a verb. Reference: `Signature`. -/
structure Signature where
  parameters : List Parameter
  /-- Whether further arguments join the last parameter, which is a list. -/
  variadic : Bool := false
  returns : ReturnKind := .boolean
  deriving Repr, DecidableEq, Inhabited

namespace Signature

/-- The least number of arguments. -/
def arity (s : Signature) : Nat := s.parameters.length

/-- Whether so many parameters may be written. -/
def accepts (s : Signature) (count : Nat) : Bool :=
  if s.variadic then s.arity ≤ count else count == s.arity

/-- The parameter that the argument at `index` is for. -/
def parameterAt? (s : Signature) (index : Nat) : Option Parameter :=
  s.parameters[index]?.or (if s.variadic then s.parameters.getLast? else none)

/-- The kind that the argument at `index` has to have. -/
def kindAt? (s : Signature) (index : Nat) : Option Kind := (s.parameterAt? index).map (·.kind)

end Signature

namespace Verb

/-- Every verb. -/
def all : List Verb :=
  [.endTurn, .goTo, .playerWin, .playerLose, .reverseDirection, .alike, .sameFace, .sameGroup,
    .sameRank, .compareRank, .checkRank, .sortByRank, .compareSizeTo, .compareSizes, .checkSize,
    .checkIfEmpty, .checkIfContains, .getSize, .put, .putMultiple, .putTop, .putAll, .exchange,
    .remove, .removeAll, .shuffle]

/-- The word for a verb. -/
def keyword : Verb → String
  | .endTurn => "end-turn"
  | .goTo => "goto"
  | .playerWin => "player-win"
  | .playerLose => "player-lose"
  | .reverseDirection => "reverse-direction"
  | .alike => "match"
  | .sameFace => "match-face"
  | .sameGroup => "match-group"
  | .sameRank => "match-rank"
  | .compareRank => "compare-rank"
  | .checkRank => "check-rank"
  | .sortByRank => "sort-by-rank"
  | .compareSizeTo => "compare-size-to"
  | .compareSizes => "compare-sizes"
  | .checkSize => "check-size"
  | .checkIfEmpty => "check-if-empty"
  | .checkIfContains => "check-if-contains"
  | .getSize => "get-size"
  | .put => "put"
  | .putMultiple => "put-multiple"
  | .putTop => "put-top"
  | .putAll => "put-all"
  | .exchange => "exchange"
  | .remove => "remove"
  | .removeAll => "remove-all"
  | .shuffle => "shuffle"

/-- The verb a word names. -/
def ofWord? (word : String) : Option Verb := all.find? (·.keyword == word)

/-- A parameter of a kind. -/
def plain (kind : Kind) : Parameter := { kind }

/-- A parameter for what is chosen from the pile at another parameter. -/
def chosenFrom (kind : Kind) (pile : Nat) : Parameter := { kind, source := some pile }

/-- The signature of a verb. -/
def signature : Verb → Signature
  | .endTurn | .reverseDirection => { parameters := [] }
  | .goTo => { parameters := [plain .phase] }
  | .playerWin | .playerLose => { parameters := [plain .player] }
  | .alike | .sameFace | .sameGroup | .sameRank =>
    { parameters := [plain .cards], variadic := true }
  | .compareRank => { parameters := [plain .card, plain .card], returns := .integer }
  | .checkRank => { parameters := [plain .card, plain .card] }
  | .sortByRank => { parameters := [plain .pile] }
  | .compareSizeTo => { parameters := [plain .pile, plain .integer], returns := .integer }
  | .compareSizes => { parameters := [plain .pile, plain .pile], returns := .integer }
  | .checkSize => { parameters := [plain .pile, plain .integer] }
  | .checkIfEmpty | .removeAll | .shuffle => { parameters := [plain .piles], variadic := true }
  | .checkIfContains => { parameters := [plain .pile, chosenFrom .card 0] }
  | .getSize => { parameters := [plain .pile], returns := .integer }
  | .put => { parameters := [plain .pile, plain .pile, chosenFrom .card 0] }
  | .putMultiple =>
    { parameters := [plain .pile, plain .pile, chosenFrom .cards 0], variadic := true }
  | .putTop | .putAll => { parameters := [plain .pile, plain .pile] }
  | .exchange =>
    { parameters := [plain .pile, plain .pile, chosenFrom .card 0, chosenFrom .card 1] }
  | .remove => { parameters := [plain .pile, chosenFrom .card 0] }

/-- Whether a verb answers yes or no. -/
def returnsBool (v : Verb) : Bool := v.signature.returns == .boolean

/-- Every verb is listed. -/
theorem mem_all (v : Verb) : v ∈ all := by cases v <;> decide

/-- The word for a verb names it. -/
theorem ofWord?_keyword (v : Verb) : ofWord? v.keyword = some v := by cases v <;> rfl

end Verb

end HouseRules
