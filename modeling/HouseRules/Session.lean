import HouseRules.Deal.Dealer
import HouseRules.Game
import HouseRules.Judge
import HouseRules.Options
import HouseRules.Verdict

/-!
# Sessions

A session is a game being played: the table, the dealer, and whether play has started. Its calls are
those of somebody who drives the game: start, ask what is allowed and what may be chosen, perform.

After an action that took effect play settles. If the player whose turn it is and their phase are as
before, the closing actions of the phase run. If they are not, or not any more, a phase has been
entered and its opening actions run. These may move play on again, so entering repeats until nothing
moves, up to a limit.

Calls that may fail give the session back beside their result: what happened before the failure has
happened.

References, here and in the other modules, name the types and functions of the card engine that is
modelled, and the sections of its specification.

Reference: `Engine` (specification 4.5, 6, E4).
-/

namespace HouseRules

open Chance (Stream)
open Answer (andThen)

/-- What a session is set up with. Reference: `EngineConfig`. -/
structure Config where
  seed : UInt64
  /-- How often an action may be repeated that runs until it has no effect. -/
  maxRepeat : Nat := 10000
  /-- How many times in a row a phase may be entered. -/
  maxPhaseChain : Nat := 64
  deriving Repr, DecidableEq

/-- An action on offer: a place in the allow block of a phase, and what stands there. Reference:
`AllowedActionRef`. -/
structure Offer where
  phase : PhaseId
  index : Nat
  performable : Performable
  deriving Repr, DecidableEq

/-- Whose turn it is, and in which phase. -/
structure Position where
  seat : Seat
  phase : Option PhaseId
  deriving Repr, DecidableEq

/-- Where play is. -/
def Table.position (t : Table) : Position := ⟨t.current, t.phaseOf? t.current⟩

/-! ## Running the lists of a phase -/

namespace Judge

/-- Runs things in order until the game is over. Reference: `Engine.run_all`. -/
def runAll (j : Judge) : List Performable → Table → Answer Unit
  | [], t => (.ok (), t)
  | p :: ps, t =>
    if t.isOver then (.ok (), t) else andThen (j.run p [] t) fun _ t => runAll j ps t

/-- Runs the responses to an action, whatever they bring about. -/
def respond (j : Judge) (supplied : List Value) : List Performable → Table → Answer Unit
  | [], t => (.ok (), t)
  | p :: ps, t => andThen (j.run p supplied t) fun _ t => respond j supplied ps t

/-- Runs the opening actions of the current phase, and again where they move play on; that may
happen `again` times more. Reference: `Engine.enter_phase`. -/
def enterPhase (j : Judge) (limit : Nat) (again : Nat) (t : Table) : Answer Unit :=
  let position := t.position
  match t.isOver, position.phase with
  | true, _ => (.ok (), t)
  | false, none => (.ok (), t)
  | false, some id =>
    andThen (.ofExcept t (j.graph.phase id)) fun phase t =>
      andThen (j.runAll phase.start t) fun _ t =>
        if t.position = position then (.ok (), t)
        else
          match again with
          | 0 => (.error (.phaseLoop phase.name limit), t)
          | again + 1 => enterPhase j limit again t

/-- Runs the closing actions of the phase of a position, if play is still there. -/
def closeAction (j : Judge) (before : Position) (t : Table) : Answer Unit :=
  match before.phase with
  | some id =>
    if t.position = before then
      andThen (.ofExcept t (j.graph.phase id)) fun phase t => j.runAll phase.finish t
    else (.ok (), t)
  | none => (.ok (), t)

/-- What follows an action that took effect at a position. Reference: `Engine.settle`. -/
def settle (j : Judge) (limit : Nat) (before : Position) (t : Table) : Answer Unit :=
  if t.isOver then (.ok (), t)
  else
    andThen (j.closeAction before t) fun _ t =>
      if t.position = before then (.ok (), t) else j.enterPhase limit (limit - 1) t

/-- The entries of an allow block that are permitted now, with their places from `index` on. -/
def permitted (j : Judge) (phase : PhaseId) (index : Nat) :
    List AllowedAction → Table → Answer (List Offer)
  | [], t => (.ok [], t)
  | entry :: entries, t =>
    let permission :=
      match entry.precondition with
      | some r => j.holds r [] t
      | none => (.ok true, t)
    andThen permission fun permission t =>
      andThen (permitted j phase (index + 1) entries t) fun offers t =>
        (.ok (if permission then ⟨phase, index, entry.action⟩ :: offers else offers), t)

end Judge

/-! ## Sessions -/

/-- A game being played. Reference: `Engine`. -/
structure Session where
  game : Game
  config : Config
  table : Table
  dealer : Dealer
  started : Bool

namespace Session

/-- Seats named players at a game. Reference: `Engine.new`. -/
def create (game : Game) (names : List String) (config : Config) : Compiled Session := do
  let count := names.length
  game.checkPlayerCount count
  let board := Board.ofLayout game.layout count
  let players := (names.zip (Seat.all count)).map fun (name, seat) =>
    Player.seated name (board.pilesOf seat)
  let root := Stream.ofSeed config.seed
  return {
    game
    config
    table := .fresh board players game.direction (root.forContext "piles")
    dealer := .fresh game.deck game.deal count (root.forContext "deck")
    started := false }

/-- What applies the game's components. -/
def judge (s : Session) : Judge := ⟨s.game.graph, s.game.ranking, s.config.maxRepeat⟩

/-- The session with the table of an answer, beside its result. -/
def after {α : Type} (s : Session) (r : Answer α) : Except RuntimeError α × Session :=
  (r.1, { s with table := r.2 })

/-! ### Questions -/

/-- The player in a seat. -/
def player? (s : Session) (seat : Seat) : Option Player := s.table.player? seat

/-- The phase of the player in a seat. -/
def phaseOf? (s : Session) (seat : Seat) : Option Phase :=
  (s.table.phaseOf? seat).bind fun id => s.game.graph.phases[id.index]?

/-- The pile of a name, as the player in a seat means it. -/
def findPile? (s : Session) (name : String) (seat : Seat) : Option PileId := do
  let slot ← s.game.layout.slot? name
  s.table.board.find? slot seat

/-- The name of an action on offer. -/
def actionName (s : Session) (offer : Offer) : Except RuntimeError String :=
  s.game.graph.nameOf offer.performable

/-- How many cards of a pile a viewer sees. Reference: `Engine.number_of_visible_cards`. -/
def visibleCount (s : Session) (pile : PileId) (viewer : Seat) : Except RuntimeError Nat := do
  let pile ← orFail (.unknownComponent "cardpile" pile.describe) (s.table.board.pile? pile)
  return pile.visibleCount viewer

/-! ### Beginning -/

/-- The session before it started, with the deck shuffled anew. Reference: `Engine.reset`. -/
def reset (s : Session) : Session :=
  { s with
    table :=
      { s.table.resetPlayers with
        board := s.table.board.clear
        current := .first
        turn := 1
        direction := s.game.direction }
    dealer := s.dealer.reset
    started := false }

/-- The session with all cards dealt and everyone in the start phase. -/
def deal (s : Session) : Session :=
  let (_, dealer, board) := s.dealer.dealAll s.table.board
  let table := { s.table with board }
  { s with
    table := table.modifyPlayers fun p => { p with phase := some s.game.startPhase }
    dealer
    started := true }

/-- Starts play, from the beginning if it has started already. Reference: `Engine.start`. -/
def start (s : Session) : Except RuntimeError Unit × Session :=
  let s := (if s.started then s.reset else s).deal
  let limit := s.config.maxPhaseChain
  s.after (s.judge.enterPhase limit (limit - 1) s.table)

/-! ### Turns -/

/-- What a player may do now, by the phase they are in; nothing before the start and after the end.
Reference: `Engine.allowed_actions_for`. -/
def allowedFor (s : Session) (seat : Seat) : Except RuntimeError (List Offer) × Session :=
  if !s.started || s.table.isOver then (.ok [], s)
  else
    match s.table.phaseOf? seat with
    | none => (.ok [], s)
    | some id =>
      s.after (andThen (.ofExcept s.table (s.game.graph.phase id)) fun phase t =>
        s.judge.permitted id 0 phase.allowed t)

/-- What the player whose turn it is may do. Reference: `Engine.allowed_actions`. -/
def allowed (s : Session) : Except RuntimeError (List Offer) × Session :=
  s.allowedFor s.table.current

/-- The action that something leads to along true branches, at most `n` of them. -/
def leadsTo (graph : Graph) : (n : Nat) → Performable → Except RuntimeError (Option Action)
  | _, .action id => some <$> graph.action id
  | 0, .controlled _ => .ok none
  | n + 1, .controlled id => do leadsTo graph n (← graph.controlledAction id).onTrue

/-- The pile that an open parameter of an action is chosen from, if it is known. -/
def sourcePile? (s : Session) (a : Action) (index : Nat) : Option PileId := do
  let parameter ← a.verb.signature.parameterAt? index
  let source ← parameter.source
  let token ← a.parameters[source]?
  if token.isPlaceholder then none
  match Token.constant s.table a.name token with
  | .ok (.pile id) => some id
  | _ => none

/-- The choices for each open parameter of an action on offer; those of a controlled action are the
choices of the action that its true branch leads to. Reference: `Engine.options`. -/
def options (s : Session) (offer : Offer) : Except RuntimeError (List OptionList) := do
  let graph := s.game.graph
  match ← leadsTo graph (graph.controlled.length + 1) offer.performable with
  | none => return []
  | some a =>
    let signature := a.verb.signature
    if !signature.accepts a.parameters.length then
      throw (.wrongArgumentCount a.verb.keyword signature.arity a.parameters.length)
    return a.parameters.zipIdx.filterMap fun (token, index) =>
      match token with
      | .placeholder kind =>
        let values := s.table.choices graph.phases.length (s.sourcePile? a index) kind
        some { index, kind, values }
      | _ => none

/-- The entry of an allow block that an offer stands for, where it is one of the current phase. -/
def entryOf (s : Session) (offer : Offer) : Except RuntimeError AllowedAction := do
  let index := offer.index
  let foreign : RuntimeError :=
    .unknownComponent "allowed action" (offer.phase.describe ++ s!" #{index}")
  if s.table.position.phase != some offer.phase then throw foreign
  let phase ← s.game.graph.phase offer.phase
  orFail foreign (phase.allowed[offer.index]?.filter (·.action == offer.performable))

/-- Runs an entry of the current phase's allow block with supplied values, then its responses, and
settles play if the action took effect. -/
def carryOut (s : Session) (entry : AllowedAction) (values : List Value) : Answer Bool :=
  let before := s.table.position
  andThen (s.judge.run entry.action values s.table) fun effective t =>
    andThen (s.judge.respond values entry.responses t) fun _ t =>
      if effective then
        andThen (s.judge.settle s.config.maxPhaseChain before t) fun _ t => (.ok true, t)
      else (.ok false, t)

/-- Performs an action on offer with supplied values; says whether it took effect. Reference:
`Engine.perform`. -/
def perform (s : Session) (offer : Offer) (values : List Value) :
    Except RuntimeError Bool × Session :=
  match s.entryOf offer with
  | .error e => (.error e, s)
  | .ok entry =>
    if s.table.isOver then (.ok false, s) else s.after (s.carryOut entry values)

/-- Evaluates the condition of a name, with nothing supplied. Reference:
`Engine.check_condition`. -/
def checkCondition (s : Session) (name : String) : Except RuntimeError Bool × Session :=
  match s.game.graph.conditionNamed? name with
  | none => (.error (.unknownComponent "condition" name), s)
  | some id => s.after (s.judge.condition .empty id [] s.table).1

end Session

end HouseRules
