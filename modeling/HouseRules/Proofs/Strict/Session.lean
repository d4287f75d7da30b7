import HouseRules.Proofs.Session.Conservation
import HouseRules.Proofs.Strict.Dealer
import HouseRules.Proofs.Strict.Judge
import HouseRules.Session.View

/-!
# No session reaches for what is not there

Whatever a session is asked (`Inquiry`), by anybody and with any arguments, it answers: it gives a
result or to an error, and on the way it never takes a player, a pile, a card or a place of the deck
that is not there, takes no length from a lesser one, and relies on nothing that does not hold.

To say so, the whole session is read strictly. A `Referee` is a session whose dealer deals from a
shoe, and what it is asked comes to `none` as soon as something is missing. `Referee.Ready` is the
invariant: the session is in play and the shoe is sound. A referee who is ready answers as the
session does, and is ready again (`Referee.Ready.reply`), and so it goes on as long as anybody asks
(`never_out_of_range`).

Reference: the calls of `Engine` (specification 6), with the indexing that they do.
-/

namespace HouseRules

open Chance (Stream)
open Answer (andThenStrict Met)

/-! ## Inquiries -/

/-- What a session may be asked, and what sort of answer that has. -/
inductive Inquiry : Type → Type
  | start : Inquiry (Except RuntimeError Unit)
  | reset : Inquiry Unit
  | allowed : Inquiry (Except RuntimeError (List Offer))
  | allowedFor (seat : Seat) : Inquiry (Except RuntimeError (List Offer))
  | perform (offer : Offer) (values : List Value) : Inquiry (Except RuntimeError Bool)
  | checkCondition (name : String) : Inquiry (Except RuntimeError Bool)
  | options (offer : Offer) : Inquiry (Except RuntimeError (List OptionList))
  | actionName (offer : Offer) : Inquiry (Except RuntimeError String)
  | player (seat : Seat) : Inquiry (Option Player)
  | phaseOf (seat : Seat) : Inquiry (Option Phase)
  | findPile (name : String) (owner : Seat) : Inquiry (Option PileId)
  | visibleCount (pile : PileId) (viewer : Seat) : Inquiry (Except RuntimeError Nat)
  | view (viewer : Seat) : Inquiry BoardView
  | verdict : Inquiry (Option Verdict)
  | isOver : Inquiry Bool
  | remaining : Inquiry Nat

namespace Session

/-- The answer to an inquiry, and the session after it. -/
def reply {α : Type} (s : Session) : Inquiry α → α × Session
  | .start => s.start
  | .reset => ((), s.reset)
  | .allowed => s.allowed
  | .allowedFor seat => s.allowedFor seat
  | .perform offer values => s.perform offer values
  | .checkCondition name => s.checkCondition name
  | .options offer => (s.options offer, s)
  | .actionName offer => (s.actionName offer, s)
  | .player seat => (s.player? seat, s)
  | .phaseOf seat => (s.phaseOf? seat, s)
  | .findPile name owner => (s.findPile? name owner, s)
  | .visibleCount pile viewer => (s.visibleCount pile viewer, s)
  | .view viewer => (s.view viewer, s)
  | .verdict => (s.table.verdict?, s)
  | .isOver => (s.table.isOver, s)
  | .remaining => (s.dealer.remaining, s)

/-- The session after some inquiries. -/
def askAll (s : Session) (asked : List (Σ α, Inquiry α)) : Session :=
  asked.foldl (fun s inquiry => (s.reply inquiry.2).2) s

end Session

/-- `Table.choices`, read strictly: cards are looked for in piles that are taken by number. -/
def Table.choicesStrict (t : Table) (phases : Nat) (source : Option PileId) :
    Kind → Option (List Value)
  | .card | .cards => do
    let ids :=
      match source with
      | some id => [id]
      | none => t.board.pilesOf t.current
    let piles ← ids.mapM t.board.pile?
    return (piles.flatMap (·.removable)).map .card
  | kind => some (t.choices phases source kind)

/-! ## Sessions read strictly -/

/-- A session whose dealer deals from a shoe. -/
structure Referee where
  game : Game
  config : Config
  table : Table
  croupier : Croupier
  started : Bool

namespace Referee

/-- The session, with what is left of the deck in place of the shoe. -/
def session (r : Referee) : Session := ⟨r.game, r.config, r.table, r.croupier.dealer, r.started⟩

/-- What applies the game's components. -/
def judge (r : Referee) : Judge := ⟨r.game.graph, r.game.ranking, r.config.maxRepeat⟩

/-- `Session.create`, read strictly: there have to be players, and no more than can be numbered. -/
def createStrict (game : Game) (names : List String) (config : Config) :
    Strict CompileError Referee := do
  let count := names.length
  game.checkPlayerCount count
  let board := Board.ofLayout game.layout count
  let players := (names.zip (Seat.all count)).map fun (name, seat) =>
    Player.seated name (board.pilesOf seat)
  Strict.rely (players ≠ [] ∧ players.length ≤ 255)
  let root := Stream.ofSeed config.seed
  let croupier ← Croupier.freshStrict game.deck game.deal count (root.forContext "deck")
  return {
    game
    config
    table := .fresh board players game.direction (root.forContext "piles")
    croupier
    started := false }

/-- The referee with the table of an answer, beside its result. -/
def afterStrict {α : Type} (r : Referee) (answer : Option (Answer α)) :
    Option (Except RuntimeError α × Referee) := do
  let (result, table) ← answer
  return (result, { r with table })

/-- As `Session.reset`. -/
def reset (r : Referee) : Referee :=
  { r with table := r.session.reset.table, croupier := r.croupier.reset, started := false }

/-- `Session.deal`, read strictly. -/
def dealStrict (r : Referee) : Option Referee := do
  let (_, croupier, board) ← r.croupier.dealAllStrict r.table.board
  let table := { r.table with board }
  return { r with
    table := table.modifyPlayers fun p => { p with phase := some r.game.startPhase }
    croupier
    started := true }

/-- `Session.start`, read strictly. -/
def startStrict (r : Referee) : Option (Except RuntimeError Unit × Referee) := do
  let r ← (if r.started then r.reset else r).dealStrict
  let limit := r.config.maxPhaseChain
  r.afterStrict (r.judge.enterPhaseStrict limit (limit - 1) r.table)

/-- `Session.player?`, read strictly: a player is taken by a seat that has been checked. -/
def playerStrict (r : Referee) (seat : Seat) : Option (Option Player) :=
  if seat.index < r.table.count then some <$> r.table.player? seat else some none

/-- `Session.phaseOf?`, read strictly. -/
def phaseOfStrict (r : Referee) (seat : Seat) : Option (Option Phase) := do
  let player ← r.playerStrict seat
  return (player.bind (·.phase)).bind fun id => r.game.graph.phases[id.index]?

/-- `Session.visibleCount`, read strictly: a pile is taken by a number that has been checked. -/
def visibleCountStrict (r : Referee) (id : PileId) (viewer : Seat) : Strict RuntimeError Nat := do
  if r.table.board.size ≤ id.index then throw (.unknownComponent "cardpile" id.describe)
  let pile ← r.table.board.pile? id
  return pile.visibleCount viewer

/-- `Session.allowedFor`, read strictly. -/
def allowedForStrict (r : Referee) (seat : Seat) :
    Option (Except RuntimeError (List Offer) × Referee) := do
  if !r.started then return (.ok [], r)
  if ← r.table.isOverStrict then return (.ok [], r)
  let player ← r.playerStrict seat
  match player.bind (·.phase) with
  | none => return (.ok [], r)
  | some id =>
    r.afterStrict (andThenStrict (some (r.game.graph.phase id, r.table)) fun phase t =>
      r.judge.permittedStrict id 0 phase.allowed t)

/-- `Session.sourcePile?`, read strictly. -/
def sourcePileStrict (r : Referee) (a : Action) (index : Nat) : Option (Option PileId) :=
  let token? : Option Token := do
    let parameter ← a.verb.signature.parameterAt? index
    let source ← parameter.source
    let token ← a.parameters[source]?
    if token.isPlaceholder then none else some token
  match token? with
  | none => some none
  | some token => do
    match ← (Token.constantStrict r.table a.name token).run with
    | .ok (.pile id) => return some id
    | _ => return none

/-- The choices for a parameter of an action, if it is open. -/
def optionListStrict (r : Referee) (a : Action) : Token × Nat → Option (Option OptionList)
  | (.placeholder kind, index) => do
    let source ← r.sourcePileStrict a index
    let values ← r.table.choicesStrict r.game.graph.phases.length source kind
    return some { index, kind, values }
  | _ => some none

/-- The choices for each open parameter of an action. -/
def optionListsStrict (r : Referee) (a : Action) : Option (List OptionList) := do
  let lists ← a.parameters.zipIdx.mapM (r.optionListStrict a)
  return lists.reduceOption

/-- `Session.options`, read strictly. -/
def optionsStrict (r : Referee) (offer : Offer) : Strict RuntimeError (List OptionList) := do
  let graph := r.game.graph
  match ← Session.leadsTo graph (graph.controlled.length + 1) offer.performable with
  | none => return []
  | some a =>
    let signature := a.verb.signature
    if !signature.accepts a.parameters.length then
      throw (.wrongArgumentCount a.verb.keyword signature.arity a.parameters.length)
    let lists ← r.optionListsStrict a
    return lists

/-- `Session.entryOf`, read strictly: it compares with where play is. -/
def entryOfStrict (r : Referee) (offer : Offer) : Strict RuntimeError AllowedAction := do
  let _ ← r.table.positionStrict
  r.session.entryOf offer

/-- `Session.carryOut`, read strictly. -/
def carryOutStrict (r : Referee) (entry : AllowedAction) (values : List Value) :
    Option (Answer Bool) := do
  let before ← r.table.positionStrict
  andThenStrict (r.judge.runStrict entry.action values r.table) fun effective t =>
    andThenStrict (r.judge.respondStrict values entry.responses t) fun _ t =>
      if effective then
        andThenStrict (r.judge.settleStrict r.config.maxPhaseChain before t) fun _ t =>
          some (.ok true, t)
      else some (.ok false, t)

/-- `Session.perform`, read strictly. -/
def performStrict (r : Referee) (offer : Offer) (values : List Value) :
    Option (Except RuntimeError Bool × Referee) := do
  match ← (r.entryOfStrict offer).run with
  | .error e => return (.error e, r)
  | .ok entry =>
    if ← r.table.isOverStrict then return (.ok false, r)
    r.afterStrict (r.carryOutStrict entry values)

/-- `Session.checkCondition`, read strictly. -/
def checkConditionStrict (r : Referee) (name : String) :
    Option (Except RuntimeError Bool × Referee) :=
  match r.game.graph.conditionNamed? name with
  | none => some (.error (.unknownComponent "condition" name), r)
  | some id => r.afterStrict (r.judge.conditionStrict .empty id [] r.table)

/-- `Session.reply`, read strictly. -/
def replyStrict {α : Type} (r : Referee) : Inquiry α → Option (α × Referee)
  | .start => r.startStrict
  | .reset => some ((), r.reset)
  | .allowed => r.allowedForStrict r.table.current
  | .allowedFor seat => r.allowedForStrict seat
  | .perform offer values => r.performStrict offer values
  | .checkCondition name => r.checkConditionStrict name
  | .options offer => (r.optionsStrict offer).run.map (·, r)
  | .actionName offer => some (r.session.actionName offer, r)
  | .player seat => (r.playerStrict seat).map (·, r)
  | .phaseOf seat => (r.phaseOfStrict seat).map (·, r)
  | .findPile name owner => some (r.session.findPile? name owner, r)
  | .visibleCount pile viewer => (r.visibleCountStrict pile viewer).run.map (·, r)
  | .view viewer => some (r.session.view viewer, r)
  | .verdict => r.table.verdictStrict.map (·, r)
  | .isOver => r.table.isOverStrict.map (·, r)
  | .remaining => r.croupier.shoe.remainingStrict.map (·, r)

/-- The referee after some inquiries, read strictly. -/
def askAllStrict (r : Referee) (asked : List (Σ α, Inquiry α)) : Option Referee :=
  asked.foldlM (fun r inquiry => do
    let (_, r) ← r.replyStrict inquiry.2
    return r) r

end Referee

/-! ## The same choices -/

/-- Where choices come from is on the board. -/
theorem Table.choicesStrict_eq {t : Table} {source : Option PileId}
    (hsource : ∀ id ∈ source, id.index < t.board.size) (phases : Nat) (kind : Kind) :
    t.choicesStrict phases source kind = some (t.choices phases source kind) := by
  have hcards : ∀ ids : List PileId, (∀ id ∈ ids, id.index < t.board.size) →
      ids.mapM t.board.pile? = some (ids.map fun id => (t.board.pile? id).getD default) :=
    fun ids hids => mapM_eq_some fun id hid => by
      obtain ⟨pile, hpile⟩ := Board.exists_pile? (hids id hid)
      rw [hpile]
      rfl
  have hremovable : ∀ ids : List PileId, (∀ id ∈ ids, id.index < t.board.size) →
      (ids.map fun id => (t.board.pile? id).getD default).flatMap (·.removable) =
        t.removableFrom ids := fun ids hids => by
    rw [List.flatMap_map]
    refine List.flatMap_congr fun id hid => ?_
    obtain ⟨pile, hpile⟩ := Board.exists_pile? (hids id hid)
    rw [hpile]
    rfl
  have hids : ∀ id ∈ (match source with
      | some id => [id]
      | none => t.board.pilesOf t.current), id.index < t.board.size := by
    cases source with
    | some id => simpa using hsource id rfl
    | none => exact fun id hid => Board.lt_of_mem_idsWhere hid
  cases kind with
  | card | cards =>
    simp only [choicesStrict, choices, hcards _ hids, Option.bind_eq_bind, Option.bind_some,
      hremovable _ hids]
    rfl
  | _ => rfl

namespace Token

/-- A pile that a parameter means is on the board. -/
theorem pile_lt_of_constant {t : Table} {context : String} {token : Token} {id : PileId}
    (h : constant t context token = .ok (.pile id)) : id.index < t.board.size := by
  cases token <;> simp only [constant, bind_ok, pure_ok] at h
  case pile selector =>
    obtain ⟨_, hselected, ⟨⟩⟩ := h
    exact Board.find?_lt (orFail_eq_ok.1 hselected)
  case contents => obtain ⟨_, -, ⟨⟩⟩ := h
  case top | bottom => obtain ⟨_, -, _, -, ⟨⟩⟩ := h
  all_goals cases h

end Token

namespace Referee

variable {r : Referee} {g : Game} {count : Nat}

/-! ## The same answers -/

/-- A referee of a game for a number of players, any time: the session is in play, and the shoe is
sound. -/
structure Ready (r : Referee) (g : Game) (count : Nat) : Prop where
  inPlay : r.session.InPlay g count
  shoe : r.croupier.shoe.Sound

/-! ### Questions -/

/-- Asking for a player takes one who is at the table, if any. -/
theorem playerStrict_eq (r : Referee) (seat : Seat) :
    r.playerStrict seat = some (r.session.player? seat) := by
  unfold playerStrict
  split
  next hlt =>
    obtain ⟨player, hplayer⟩ := Table.exists_player? hlt
    rw [Session.player?, show r.session.table = r.table from rfl, hplayer]
    rfl
  next hge => exact congrArg some (List.getElem?_eq_none (Nat.le_of_not_lt hge)).symm

/-- Asking for the phase of a player takes one that is in the graph, if any. -/
theorem phaseOfStrict_eq (r : Referee) (seat : Seat) :
    r.phaseOfStrict seat = some (r.session.phaseOf? seat) := by
  rw [phaseOfStrict, playerStrict_eq]
  rfl

/-- Asking how many cards a viewer sees takes a pile that is there, if any. -/
theorem visibleCountStrict_eq (r : Referee) (id : PileId) (viewer : Seat) :
    r.visibleCountStrict id viewer = some (r.session.visibleCount id viewer) := by
  unfold visibleCountStrict Session.visibleCount
  split
  next hge =>
    rw [show r.session.table.board.pile? id = none from List.getElem?_eq_none hge]
    rfl
  next hlt =>
    obtain ⟨pile, hpile⟩ := Board.exists_pile? (Nat.lt_of_not_le hlt)
    rw [show r.session.table.board.pile? id = some pile from hpile, hpile]
    rfl

section

variable (hsome : 0 < r.table.count) (hcount : r.table.count ≤ 255)

include hsome hcount

/-- The pile that choices come from is found. -/
theorem sourcePileStrict_eq (a : Action) (index : Nat) :
    r.sourcePileStrict a index = some (r.session.sourcePile? a index) := by
  unfold sourcePileStrict Session.sourcePile?
  cases a.verb.signature.parameterAt? index with
  | none => rfl
  | some parameter =>
    cases hsource : parameter.source with
    | none => simp [hsource]
    | some source =>
      cases htoken : a.parameters[source]? with
      | none => simp [hsource, htoken]
      | some token =>
        cases hplace : token.isPlaceholder with
        | true => simp [hsource, htoken, hplace]
        | false =>
          simp only [Option.bind_eq_bind, Option.bind_some, hsource, htoken, hplace,
            Bool.false_eq_true, if_false, Token.constantStrict_eq hsome hcount]
          rw [show r.session.table = r.table from rfl]
          generalize Token.constant r.table a.name token = found
          obtain e | v := found
          · rfl
          · cases v <;> rfl

omit hsome hcount in
/-- The pile from which an argument is chosen is on the board. -/
theorem sourcePile?_lt {a : Action} {index : Nat} {id : PileId}
    (h : r.session.sourcePile? a index = some id) : id.index < r.table.board.size := by
  unfold Session.sourcePile? at h
  obtain ⟨parameter, -, h⟩ := Option.bind_eq_some_iff.1 h
  obtain ⟨source, -, h⟩ := Option.bind_eq_some_iff.1 h
  obtain ⟨token, -, h⟩ := Option.bind_eq_some_iff.1 h
  cases hplace : token.isPlaceholder with
  | true => simp [hplace] at h
  | false =>
    simp only [hplace, Bool.false_eq_true, if_false] at h
    split at h
    next hconstant =>
      cases h
      exact Token.pile_lt_of_constant hconstant
    next => cases h

/-- The options of a parameter are listed without taking a pile that is not there. -/
theorem optionListStrict_eq (a : Action) (x : Token × Nat) :
    r.optionListStrict a x = some (match x.1 with
      | .placeholder kind => some {
          index := x.2
          kind
          values := r.table.choices r.game.graph.phases.length (r.session.sourcePile? a x.2) kind }
      | _ => none) := by
  obtain ⟨token, index⟩ := x
  cases token with
  | placeholder kind =>
    rw [optionListStrict, sourcePileStrict_eq hsome hcount, Option.bind_eq_bind, Option.bind_some,
      Table.choicesStrict_eq fun id hid => sourcePile?_lt hid]
    rfl
  | _ => rfl

/-- The options of an offer are listed without taking a pile that is not there. -/
theorem optionsStrict_eq (offer : Offer) :
    r.optionsStrict offer = some (r.session.options offer) := by
  unfold optionsStrict Session.options
  refine Strict.read_bind fun found _ => ?_
  cases found with
  | none => rfl
  | some a =>
    dsimp only
    split
    · rfl
    · rw [optionListsStrict,
        mapM_eq_some fun x _ => optionListStrict_eq hsome hcount a x]
      exact congrArg (fun lists => some (Except.ok lists)) (List.filterMap_map (g := id))

end

/-! ### Play -/

/-- A strict answer comes to that of a session, and leaves the referee of the session that this one
leaves, with a sound shoe. -/
def Agrees {α : Type} (x : Option (α × Referee)) (answer : α × Session) : Prop :=
  ∃ r', x = some (answer.1, r') ∧ r'.session = answer.2 ∧ r'.croupier.shoe.Sound

/-- The table of a referee who is ready is sound for the judge. -/
theorem Ready.soundFor (h : r.Ready g count) : r.judge.SoundFor g.layout count r.table := by
  have := h.inPlay.table
  rwa [← h.inPlay.game] at this ⊢

/-- What is met leaves the referee as it leaves the session. -/
theorem after_agrees {α : Type} (h : r.croupier.shoe.Sound) {p : Table → Prop}
    {x : Option (Answer α)} {answer : Answer α} (hx : Met p x answer) :
    Agrees (r.afterStrict x) (r.session.after answer) := by
  rw [hx.eq]
  exact ⟨{ r with table := answer.2 }, rfl, rfl, h⟩

/-- A referee who is reset is one of the session that is reset. -/
theorem session_reset (r : Referee) : r.reset.session = r.session.reset := by
  rw [session, reset, Croupier.dealer_reset]
  rfl

/-- A referee who is reset is ready. -/
theorem Ready.reset (hg : g.WellFormed) (h : r.Ready g count) : r.reset.Ready g count :=
  ⟨r.session_reset ▸ h.inPlay.reset hg, r.croupier.sound_reset⟩

/-- A referee who is ready deals as the session does, and is ready again. -/
theorem Ready.deal (hg : g.WellFormed) (h : r.Ready g count) :
    ∃ r', r.dealStrict = some r' ∧ r'.session = r.session.deal ∧ r'.Ready g count := by
  obtain ⟨croupier, hall, hdealer, hsound⟩ := Croupier.dealAllStrict_eq h.shoe r.table.board
  have hinPlay := h.inPlay.deal hg
  rw [dealStrict, hall]
  rw [Session.deal, session] at hinPlay ⊢
  dsimp only at hinPlay ⊢
  rw [← hdealer] at hinPlay ⊢
  exact ⟨_, rfl, rfl, hinPlay, hsound⟩

/-- Starting finds all that it takes, whether play has started or not. -/
theorem Ready.start (hg : g.WellFormed) (h : r.Ready g count) :
    Agrees r.startStrict r.session.start := by
  have hbegin : (if r.started then r.reset else r).Ready g count := by
    split
    · exact h.reset hg
    · exact h
  obtain ⟨r', hdeal, hsession, hready⟩ := hbegin.deal hg
  have hdealt : r'.session = (if r.session.started then r.session.reset else r.session).deal := by
    rw [hsession, apply_ite session, session_reset]
    rfl
  unfold startStrict Session.start
  rw [hdeal, ← hdealt]
  exact after_agrees hready.shoe (Judge.enterPhase_met _ _ hready.soundFor)

section

variable (h : r.Ready g count)

include h

/-- A referee who is ready says what a player may do as the session does. -/
theorem Ready.allowedFor (seat : Seat) :
    Agrees (r.allowedForStrict seat) (r.session.allowedFor seat) := by
  unfold allowedForStrict Session.allowedFor
  rw [Table.isOverStrict_eq, playerStrict_eq]
  rw [show r.session.started = r.started from rfl, show r.session.table = r.table from rfl]
  cases r.started with
  | false => exact ⟨r, rfl, rfl, h.shoe⟩
  | true =>
    cases hover : r.table.isOver with
    | true => exact ⟨r, rfl, rfl, h.shoe⟩
    | false =>
      simp only [Option.bind_eq_bind, Option.bind_some, Bool.not_true, Bool.false_eq_true,
        if_false, Bool.or_false]
      rw [show (r.session.player? seat).bind (·.phase) = r.table.phaseOf? seat from rfl]
      cases r.table.phaseOf? seat with
      | none => exact ⟨r, rfl, rfl, h.shoe⟩
      | some id =>
        exact after_agrees h.shoe (Met.andThen (.done h.soundFor) fun phase t ht =>
          Judge.permitted_met id 0 phase.allowed ht)

/-- A referee who is ready carries out an action as the session does. -/
theorem Ready.carryOut (entry : AllowedAction) (values : List Value) :
    Met (r.judge.SoundFor g.layout count) (r.carryOutStrict entry values)
      (r.session.carryOut entry values) := by
  unfold carryOutStrict Session.carryOut
  rw [Table.positionStrict_eq h.soundFor.current, Option.bind_eq_bind, Option.bind_some]
  refine (Judge.run_met entry.action values h.soundFor).andThen fun effective t ht => ?_
  refine (Judge.respond_met values entry.responses ht).andThen fun _ t ht => ?_
  cases effective with
  | false => exact .done ht
  | true =>
    exact (Judge.settle_met r.config.maxPhaseChain r.table.position ht).andThen fun _ t ht =>
      .done ht

/-- Performing finds all that it takes, whatever is offered and supplied. -/
theorem Ready.perform (offer : Offer) (values : List Value) :
    Agrees (r.performStrict offer values) (r.session.perform offer values) := by
  have hentry : r.entryOfStrict offer = some (r.session.entryOf offer) := by
    rw [entryOfStrict, Strict.take_bind (Table.positionStrict_eq h.soundFor.current)]
    exact Strict.liftM_except _
  unfold performStrict Session.perform
  rw [hentry]
  cases r.session.entryOf offer with
  | error e => exact ⟨r, rfl, rfl, h.shoe⟩
  | ok entry =>
    simp only [ExceptT.run, Option.bind_eq_bind, Option.bind_some, Table.isOverStrict_eq]
    rw [show r.session.table = r.table from rfl]
    split
    · exact ⟨r, rfl, rfl, h.shoe⟩
    · exact after_agrees h.shoe (h.carryOut entry values)

/-- A referee who is ready checks a condition as the session does. -/
theorem Ready.checkCondition (name : String) :
    Agrees (r.checkConditionStrict name) (r.session.checkCondition name) := by
  unfold checkConditionStrict Session.checkCondition
  rw [show r.session.game = r.game from rfl]
  cases r.game.graph.conditionNamed? name with
  | none => exact ⟨r, rfl, rfl, h.shoe⟩
  | some id => exact after_agrees h.shoe (Judge.condition_met .empty id [] h.soundFor)

/-- A referee who is ready answers whatever is asked as the session does. -/
theorem Ready.reply (hg : g.WellFormed) {α : Type} (inquiry : Inquiry α) :
    Agrees (r.replyStrict inquiry) (r.session.reply inquiry) := by
  have hsound := h.soundFor
  have hsome := Nat.zero_lt_of_lt hsound.current
  cases inquiry with
  | start => exact h.start hg
  | reset => exact ⟨r.reset, rfl, r.session_reset, r.croupier.sound_reset⟩
  | allowed => exact h.allowedFor r.table.current
  | allowedFor seat => exact h.allowedFor seat
  | perform offer values => exact h.perform offer values
  | checkCondition name => exact h.checkCondition name
  | options offer =>
    refine ⟨r, ?_, rfl, h.shoe⟩
    rw [replyStrict, optionsStrict_eq hsome hsound.numbered]
    rfl
  | player seat =>
    refine ⟨r, ?_, rfl, h.shoe⟩
    rw [replyStrict, playerStrict_eq]
    rfl
  | phaseOf seat =>
    refine ⟨r, ?_, rfl, h.shoe⟩
    rw [replyStrict, phaseOfStrict_eq]
    rfl
  | visibleCount pile viewer =>
    refine ⟨r, ?_, rfl, h.shoe⟩
    rw [replyStrict, visibleCountStrict_eq]
    rfl
  | verdict =>
    refine ⟨r, ?_, rfl, h.shoe⟩
    rw [replyStrict, Table.verdictStrict_eq]
    rfl
  | isOver =>
    refine ⟨r, ?_, rfl, h.shoe⟩
    rw [replyStrict, Table.isOverStrict_eq]
    rfl
  | remaining =>
    refine ⟨r, ?_, rfl, h.shoe⟩
    rw [replyStrict, Shoe.remainingStrict_eq h.shoe]
    rfl
  | actionName | findPile | view => exact ⟨r, rfl, rfl, h.shoe⟩

end

/-! ### Sitting down -/

/-- Whoever is admitted sits down: there is somebody, and all can be numbered. -/
theorem createStrict_eq (hg : g.WellFormed) {names : List String} {config : Config} {s : Session}
    (h : Session.create g names config = .ok s) :
    ∃ r, createStrict g names config = some (.ok r) ∧ r.session = s ∧
      r.Ready g names.length := by
  have hinPlay := Session.inPlay_create hg h
  simp only [Session.create, bind_ok, pure_ok] at h
  obtain ⟨⟨⟩, hcheck, rfl⟩ := h
  obtain ⟨hsome, hnumbered⟩ := hg.count_of_check hcheck
  let players := (names.zip (Seat.all names.length)).map fun (name, seat) =>
    Player.seated name ((Board.ofLayout g.layout names.length).pilesOf seat)
  have hplayers : players.length = names.length := by
    rw [List.length_map, List.length_zip, Seat.length_all]
    omega
  have hseated : players ≠ [] ∧ players.length ≤ 255 :=
    ⟨List.ne_nil_of_length_pos (hplayers ▸ hsome), hplayers ▸ hnumbered⟩
  obtain ⟨croupier, hfresh, hdealer, hsound⟩ := Croupier.freshStrict_eq g.deck g.deal names.length
    ((Stream.ofSeed config.seed).forContext "deck")
  rw [← hdealer] at hinPlay ⊢
  let r : Referee := {
    game := g
    config
    table := .fresh (.ofLayout g.layout names.length) players g.direction
      ((Stream.ofSeed config.seed).forContext "piles")
    croupier
    started := false }
  refine ⟨r, ?_, rfl, hinPlay, hsound⟩
  unfold createStrict
  dsimp only
  rw [hcheck]
  refine (Strict.rely_bind hseated _).trans ?_
  rw [Strict.take_bind hfresh]
  rfl

end Referee

/-! ## One inquiry after the other -/

/-- Whatever a session in play is asked, it is in play afterwards. -/
theorem Session.InPlay.reply {s : Session} {g : Game} {count : Nat} (hg : g.WellFormed)
    (h : s.InPlay g count) {α : Type} (inquiry : Inquiry α) :
    (s.reply inquiry).2.InPlay g count := by
  cases inquiry with
  | start => exact h.start hg
  | reset => exact h.reset hg
  | allowed => exact h.allowedFor hg s.table.current
  | allowedFor seat => exact h.allowedFor hg seat
  | perform offer values => exact h.perform hg offer values
  | checkCondition name => exact h.checkCondition hg name
  | _ => exact h

/-- Whatever is asked of it, a session stays in play. -/
theorem Session.InPlay.askAll {s : Session} {g : Game} {count : Nat} (hg : g.WellFormed)
    (h : s.InPlay g count) (asked : List (Σ α, Inquiry α)) : (s.askAll asked).InPlay g count := by
  induction asked generalizing s with
  | nil => exact h
  | cons inquiry asked ih => exact ih (h.reply hg inquiry.2)

namespace Referee

variable {r : Referee} {g : Game} {count : Nat}

/-- All of a referee's indices are in range: somebody at the table has the turn, players are in no
phase that is not there, the piles on the board are those that it was built with, and dealing has
come no further than to the end of the deck. -/
structure InRange (r : Referee) (g : Game) (count : Nat) : Prop where
  players : r.table.count = count
  current : r.table.current.index < count
  phases : r.table.InPhases g.graph.phases.length
  board : r.table.board.clear = Board.ofLayout g.layout count
  deck : r.croupier.shoe.deck = g.deck
  cursor : r.croupier.shoe.cursor ≤ g.deck.size

/-- The indices of a referee who is ready are in range. -/
theorem Ready.inRange (h : r.Ready g count) : r.InRange g count where
  players := h.inPlay.table.seated
  current := h.inPlay.table.seated ▸ h.inPlay.table.current
  phases := h.inPlay.table.inPhases
  board := h.inPlay.frame
  deck := h.inPlay.dealer.deck
  cursor := h.inPlay.dealer.deck ▸ h.shoe.cursor_le

/-- A referee who is ready is ready after any inquiries. -/
theorem Ready.askAll (hg : g.WellFormed) (h : r.Ready g count) (asked : List (Σ α, Inquiry α)) :
    ∃ r', r.askAllStrict asked = some r' ∧ r'.session = r.session.askAll asked ∧
      r'.Ready g count := by
  induction asked generalizing r with
  | nil => exact ⟨r, rfl, rfl, h⟩
  | cons inquiry asked ih =>
    obtain ⟨r₁, hreply, hsession, hsound⟩ := h.reply hg inquiry.2
    have hready : r₁.Ready g count := ⟨hsession ▸ h.inPlay.reply hg inquiry.2, hsound⟩
    obtain ⟨r', hall, hlater, hready'⟩ := ih hready
    refine ⟨r', ?_, ?_, hready'⟩
    · rw [askAllStrict, List.foldlM_cons, hreply]
      exact hall
    · rw [hlater, hsession]
      rfl

/-- However a compiled game is set up and whatever a session of it is asked, nothing is out of range
in any state that is reached, and the next inquiry is answered, as the session answers it, without
reaching for anything that is not there. -/
theorem never_out_of_range {rules deck board : Document} {brief : Option Document} {g : Game}
    {names : List String} {config : Config} {s : Session}
    (hgame : Game.ofDocuments rules deck board brief = .ok g)
    (hs : Session.create g names config = .ok s) (asked : List (Σ α, Inquiry α)) :
    ∃ r₀ r, createStrict g names config = some (.ok r₀) ∧ r₀.session = s ∧
      r₀.askAllStrict asked = some r ∧ r.session = s.askAll asked ∧ r.InRange g names.length ∧
      ∀ (α : Type) (inquiry : Inquiry α), ∃ r', r.replyStrict inquiry =
        some ((r.session.reply inquiry).1, r') ∧ r'.session = (r.session.reply inquiry).2 := by
  have hg := Game.wellFormed_of_ofDocuments hgame
  obtain ⟨r₀, hcreate, rfl, hready₀⟩ := createStrict_eq hg hs
  obtain ⟨r, hall, hsession, hready⟩ := hready₀.askAll hg asked
  refine ⟨r₀, r, hcreate, rfl, hall, hsession, hready.inRange, fun α inquiry => ?_⟩
  obtain ⟨r', hreply, hnext, -⟩ := hready.reply hg inquiry
  exact ⟨r', hreply, hnext⟩

/-- Two players who draw ask for what is not there: an offer of no phase, the choices of no action,
cards of no pile, and a player in no seat; in between they start, twice. -/
theorem drawing_never_out_of_range :
    ∃ (g : Game) (s : Session) (r : Referee),
      Game.ofDocuments Graph.drawingRules Session.drawingDeck Graph.drawingBoard none = .ok g ∧
      Session.create g ["ann", "bob"] { seed := 1 } = .ok s ∧
      r.session = s.askAll [⟨_, .start⟩, ⟨_, .perform ⟨⟨7⟩, 9, .action ⟨8⟩⟩ [.pile ⟨99⟩]⟩,
        ⟨_, .options ⟨⟨0⟩, 0, .action ⟨5⟩⟩⟩, ⟨_, .visibleCount ⟨50⟩ ⟨200⟩⟩,
        ⟨_, .perform ⟨⟨0⟩, 0, .action ⟨0⟩⟩ [.player ⟨200⟩]⟩, ⟨_, .start⟩] ∧
      r.InRange g 2 ∧
      ∃ r', r.replyStrict (.player ⟨200⟩) = some ((r.session.reply (.player ⟨200⟩)).1, r') := by
  have hok : Session.drawing.isOk = true := by decide +kernel
  obtain ⟨⟨g, s⟩, h⟩ := Succeeds.of_isOk hok
  simp only [Session.drawing, bind_ok, pure_ok] at h
  obtain ⟨_, hgame, _, hs, heq⟩ := h
  cases heq
  obtain ⟨-, r, -, -, -, hsession, hrange, hreply⟩ := never_out_of_range hgame hs
    [⟨_, .start⟩, ⟨_, .perform ⟨⟨7⟩, 9, .action ⟨8⟩⟩ [.pile ⟨99⟩]⟩,
      ⟨_, .options ⟨⟨0⟩, 0, .action ⟨5⟩⟩⟩, ⟨_, .visibleCount ⟨50⟩ ⟨200⟩⟩,
      ⟨_, .perform ⟨⟨0⟩, 0, .action ⟨0⟩⟩ [.player ⟨200⟩]⟩, ⟨_, .start⟩]
  obtain ⟨r', hnext, -⟩ := hreply _ (.player ⟨200⟩)
  exact ⟨g, s, r, hgame, hs, hsession, hrange, r', hnext⟩

end Referee

end HouseRules
