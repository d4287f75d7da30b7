import HouseRules.Proofs.Board.Moves
import HouseRules.Proofs.Operation

/-!
# Calls that change the table as they go

`Operation.dispatch` checks a call first and gives a new table last, so a call that fails has no
table that could be half changed. A game with one table that everybody looks at has no such luck: it
reads an argument, takes a card from a pile, adds it to another, one after the other, and whatever
has been done when a check fails stays done. `Call.inPlace` is that run: the same checks and the
same small changes, each made at once, in the order in which they come.

The two agree (`Call.on_inPlace`): the run in place answers as `dispatch` does and leaves the table
that `dispatch` gives, and where `dispatch` fails it fails in the same way and leaves the table that
it found. So every check of every verb stands before the first change.

Reference: `OperationResolver.dispatch`, which changes its state as it goes (specification 4.3).
-/

namespace HouseRules

namespace Pile

/-- Cards that may be taken together are not named twice. -/
theorem nodup_of_canTake {p : Pile} {ids : List CardId}
    (h : ¬ (ids.isEmpty || !p.canTake ids) = true) : ids.Nodup := by
  simp only [Bool.or_eq_true, Bool.not_eq_true', not_or, Bool.not_eq_false, canTake,
    Bool.and_eq_true, decide_eq_true_eq] at h
  exact h.2.1.2

/-- Cards named once are found after a card of another number is gone. -/
theorem filterMap_card?_erase {p : Pile} {id : CardId} {ids : List CardId} (h : id ∉ ids) :
    ids.filterMap (p.erase id).card? = ids.filterMap p.card? :=
  List.filterMap_congr fun _ hmem => card?_erase fun heq => h (heq ▸ hmem)

/-- Cards are looked up one after the other, the first of them first. -/
theorem filterMap_card?_cons (p : Pile) (id : CardId) (ids : List CardId) :
    (id :: ids).filterMap p.card? = (p.card? id).toList ++ ids.filterMap p.card? := by
  cases h : p.card? id with
  | none => exact List.filterMap_cons_none h
  | some card => exact List.filterMap_cons_some h

end Pile

/-- A run that changes the table as it goes. -/
abbrev InPlace (α : Type) := ExceptT RuntimeError (StateM Table) α

namespace InPlace

variable {α β : Type}

/-- What a run comes to at a table, and the table that it leaves. -/
def on (m : InPlace α) (t : Table) : Except RuntimeError α × Table := m.run.run t

@[simp] theorem on_pure (a : α) (t : Table) : (pure a : InPlace α).on t = (.ok a, t) := rfl

@[simp] theorem on_read (x : Except RuntimeError α) (t : Table) :
    (liftM x : InPlace α).on t = (x, t) := by
  cases x <;> rfl

/-- The second half goes on where the first one comes to something, and there is none where the
first one fails. -/
theorem on_bind (m : InPlace α) (f : α → InPlace β) (t : Table) :
    (m >>= f).on t = match m.on t with
      | (.ok a, t') => (f a).on t'
      | (.error e, t') => (.error e, t') := by
  unfold on ExceptT.run StateT.run
  simp only [Bind.bind, ExceptT.bind, ExceptT.mk, StateT.bind, ExceptT.bindCont]
  cases m t with
  | mk result t' => cases result <;> rfl

@[simp] theorem on_modify (f : Table → Table) (t : Table) :
    (modify f : InPlace Unit).on t = (.ok (), f t) := rfl

@[simp] theorem on_get (t : Table) : (get : InPlace Table).on t = (.ok t, t) := rfl

/-- A run that begins with the table goes on with the table there is. -/
theorem on_get_bind (f : Table → InPlace β) (t : Table) :
    ((get : InPlace Table) >>= f).on t = (f t).on t := rfl

/-- Changes made one after the other. -/
theorem on_forM (change : α → Table → Table) (l : List α) (t : Table) :
    (l.forM fun a => (modify (change a) : InPlace Unit)).on t =
      (.ok (), l.foldl (fun t a => change a t) t) := by
  induction l generalizing t with
  | nil => rfl
  | cons a l ih => exact ih (change a t)

/-! ## Cards -/

/-- Changes a pile. -/
def changePile (id : PileId) (change : Pile → Pile) : InPlace Unit :=
  modify fun t => { t with board := t.board.modify id change }

/-- Takes a card from a pile. -/
def take (source : PileId) (id : CardId) : InPlace (Option Card) := do
  let t ← get
  changePile source (·.erase id)
  return (t.board.pile? source).bind (·.card? id)

/-- Takes cards from a pile one by one. -/
def takeEach (source : PileId) : List CardId → InPlace (List Card)
  | [] => return []
  | id :: ids => do
    let card ← take source id
    let cards ← takeEach source ids
    return card.toList ++ cards

/-- Adds cards to a pile one by one. -/
def addEach (target : PileId) : List Card → InPlace Unit
  | [] => return ()
  | card :: cards => do
    changePile target (·.add card)
    addEach target cards

/-- Takes cards from a pile one by one, putting each with those out of play. -/
def discardEach (source : PileId) : List CardId → InPlace Unit
  | [] => return ()
  | id :: ids => do
    let card ← take source id
    modify fun t => { t with board.removed := t.board.removed ++ card.toList }
    discardEach source ids

/-! ## Moves -/

/-- Moves cards one by one. -/
def transfer (source target : PileId) (ids : List CardId) : InPlace Outcome := do
  let t ← get
  let some pile := t.board.pile? source | return .bool false
  if ids.isEmpty || !pile.canTake ids then return .bool false
  let moved ← takeEach source ids
  addEach target moved
  return .bool true

/-- Moves the topmost card. -/
def transferTop (source target : PileId) : InPlace Outcome := do
  let t ← get
  match (t.board.pile? source).bind (·.top?) with
  | some card => transfer source target [card.id]
  | none => return .bool false

/-- Empties a pile and adds its cards to another one by one. -/
def transferAll (source target : PileId) : InPlace Outcome := do
  if source = target then return .bool true
  let t ← get
  let some pile := t.board.pile? source | return .bool true
  changePile source Pile.clear
  addEach target pile.cards
  return .bool true

/-- Puts one card in the place of another, and then the other in the place of the one. -/
def exchange (a b : PileId) (cardA cardB : CardId) : InPlace Outcome := do
  let t ← get
  let some pileA := t.board.pile? a | return .bool false
  let some pileB := t.board.pile? b | return .bool false
  if !pileA.canTake [cardA] || !pileB.canTake [cardB] then return .bool false
  if a = b then
    let some swapped := pileA.swap? cardA cardB | return .bool false
    changePile a fun _ => swapped
    return .bool true
  let some first := pileA.card? cardA | return .bool false
  let some second := pileB.card? cardB | return .bool false
  changePile a (·.replace cardA second)
  changePile b (·.replace cardB first)
  return .bool true

/-- Takes a card out of play. -/
def remove (source : PileId) (ids : List CardId) : InPlace Outcome := do
  let t ← get
  let some pile := t.board.pile? source | return .bool false
  if ids.isEmpty || !pile.canTake ids then return .bool false
  discardEach source ids
  return .bool true

end InPlace

namespace Call

/-- Carries out the verb of a call, reading each argument when it comes to it. -/
def act (c : Call) (ranking : Ranking) : InPlace Outcome := do
  match c.verb with
  | .endTurn =>
    modify Table.advanceTurn
    return .bool true
  | .goTo =>
    let phase ← c.phase 0
    modify fun t => t.modifyPlayer t.current fun p => { p with phase := some phase }
    return .bool true
  | .playerWin =>
    let seat ← c.seat 0
    modify fun t => t.modifyPlayer seat fun p => { p with status := .won }
    return .bool true
  | .playerLose =>
    let seat ← c.seat 0
    modify fun t => t.modifyPlayer seat fun p => { p with status := .lost }
    return .bool true
  | .reverseDirection =>
    modify fun t => { t with direction := t.direction.reversed }
    return .bool true
  | .alike => return .bool (Operation.agree (Likeness.attributes.holds ranking) (← c.cards 0))
  | .sameFace => return .bool (Operation.agree (Likeness.face.holds ranking) (← c.cards 0))
  | .sameGroup => return .bool (Operation.agree (Likeness.group.holds ranking) (← c.cards 0))
  | .sameRank => return .bool (Operation.agree (Likeness.rank.holds ranking) (← c.cards 0))
  | .compareRank => return Operation.ofOrdering (ranking.compare (← c.card 0) (← c.card 1))
  | .checkRank => return .bool (ranking.outranks (← c.card 0) (← c.card 1))
  | .sortByRank =>
    let pile ← c.pile 0
    InPlace.changePile pile (·.sort ranking.compare)
    return .bool true
  | .compareSizeTo =>
    let pile ← c.pile 0
    let size := Operation.sizeOf (← get) pile
    return Operation.ofOrdering (compare (Int.ofNat size) (← c.integer 1))
  | .compareSizes =>
    let a ← c.pile 0
    let sizeA := Operation.sizeOf (← get) a
    let b ← c.pile 1
    let sizeB := Operation.sizeOf (← get) b
    return Operation.ofOrdering (compare sizeA sizeB)
  | .checkSize =>
    let pile ← c.pile 0
    let size := Operation.sizeOf (← get) pile
    return .bool (Int.ofNat size == (← c.integer 1))
  | .checkIfEmpty =>
    let piles ← c.piles 0
    let t ← get
    return .bool (piles.all fun id => Operation.sizeOf t id == 0)
  | .checkIfContains =>
    let pile ← c.pile 0
    let card ← c.card 1
    let t ← get
    return .bool ((t.board.pile? pile).any (·.contains card.id))
  | .getSize =>
    let pile ← c.pile 0
    return .integer (Int.ofNat (Operation.sizeOf (← get) pile))
  | .put => InPlace.transfer (← c.pile 0) (← c.pile 1) [(← c.card 2).id]
  | .putMultiple => InPlace.transfer (← c.pile 0) (← c.pile 1) ((← c.cards 2).map (·.id))
  | .putTop => InPlace.transferTop (← c.pile 0) (← c.pile 1)
  | .putAll => InPlace.transferAll (← c.pile 0) (← c.pile 1)
  | .exchange => InPlace.exchange (← c.pile 0) (← c.pile 1) (← c.card 2).id (← c.card 3).id
  | .remove => InPlace.remove (← c.pile 0) [(← c.card 1).id]
  | .removeAll =>
    (← c.piles 0).forM fun pile => modify fun t => { t with board := t.board.removeAll pile }
    return .bool true
  | .shuffle =>
    (← c.piles 0).forM fun pile => modify fun t =>
      let (board, stream) := t.board.shuffle pile t.stream
      { t with board, stream }
    return .bool true

/-- Checks that the values of a call belong to the game, one by one. -/
def checkEach (c : Call) (phases : Nat) : List Value → InPlace Unit
  | [] => return ()
  | value :: values => do
    let t ← get
    if !value.belongs t phases then
      throw (.unusableArgument c.verb.keyword value.describe "not part of this game")
    checkEach c phases values

/-- Checks a call and carries it out, changing the table as it goes. -/
def inPlace (c : Call) (ranking : Ranking) (phases : Nat) : InPlace Outcome := do
  let arity := c.verb.signature.arity
  if c.values.length < arity then
    throw (.wrongArgumentCount c.verb.keyword arity c.values.length)
  checkEach c phases c.values
  act c ranking

end Call

namespace InPlace

/-! ## The same as all at once -/

/-- What a call comes to when all of it happens at once: its answer and its table, or its error and
the table that was there. -/
def atOnce (t : Table) : Except RuntimeError (Outcome × Table) → Except RuntimeError Outcome × Table
  | .ok (outcome, t') => (.ok outcome, t')
  | .error e => (.error e, t)

variable {t : Table}

/-- Both read an argument in the same way. -/
theorem on_read_bind {x : Except RuntimeError α} {f : α → InPlace Outcome}
    {g : α → Except RuntimeError (Outcome × Table)}
    (h : ∀ a, (f a).on t = atOnce t (g a)) : (liftM x >>= f).on t = atOnce t (x >>= g) := by
  rw [on_bind, on_read]
  cases x with
  | ok a => exact h a
  | error e => rfl

/-! ### Cards -/

/-- A pile that is changed in place is changed on the board. -/
theorem on_changePile (id : PileId) (change : Pile → Pile) :
    (changePile id change).on t = (.ok (), { t with board := t.board.modify id change }) := rfl

/-- A card that is taken in place is the one found there, and is erased from its pile. -/
theorem on_take (source : PileId) (id : CardId) :
    (take source id).on t = (.ok ((t.board.pile? source).bind (·.card? id)),
      { t with board := t.board.modify source (·.erase id) }) := rfl

/-- Cards that are taken one by one are those that all lay there before. -/
theorem on_takeEach {source : PileId} {ids : List CardId} {pile : Pile}
    (hpile : t.board.pile? source = some pile) (hids : ids.Nodup) :
    (takeEach source ids).on t = (.ok (ids.filterMap pile.card?),
      { t with board := t.board.modify source (·.eraseAll ids) }) := by
  induction ids generalizing t pile with
  | nil =>
    rw [takeEach, on_pure]
    exact congrArg (fun b => (_, { t with board := b })) (t.board.modify_unchanged source).symm
  | cons id ids ih =>
    obtain ⟨hnew, hids⟩ := List.nodup_cons.1 hids
    have hrest := ih (t := { t with board := t.board.modify source (·.erase id) })
      (Board.pile?_modify_self _ _ hpile _) hids
    simp only [takeEach, on_bind, on_take, hrest, on_pure, hpile, Option.bind_some,
      Board.modify_modify, Pile.filterMap_card?_erase hnew, Pile.filterMap_card?_cons]
    rfl

/-- Adding cards one by one adds them all. -/
theorem on_addEach (target : PileId) (cards : List Card) :
    (addEach target cards).on t =
      (.ok (), { t with board := t.board.modify target (·.addAll cards) }) := by
  simp only [← Pile.foldl_add]
  induction cards generalizing t with
  | nil =>
    rw [addEach, on_pure]
    exact congrArg (fun b => (_, { t with board := b })) (t.board.modify_unchanged target).symm
  | cons card cards ih =>
    simp only [addEach, on_bind, on_changePile, ih, Board.modify_modify, List.foldl_cons]

/-- Cards that are put out of play one by one are those that all lay there before. -/
theorem on_discardEach {source : PileId} {ids : List CardId} {pile : Pile}
    (hpile : t.board.pile? source = some pile) (hids : ids.Nodup) :
    (discardEach source ids).on t = (.ok (),
      { t with board := { t.board.modify source (·.eraseAll ids) with
        removed := t.board.removed ++ ids.filterMap pile.card? } }) := by
  induction ids generalizing t pile with
  | nil =>
    have hsame := t.board.modify_unchanged source
    simp only [discardEach, on_pure, List.filterMap_nil, List.append_nil]
    exact congrArg (fun b => (_, { t with board := b })) hsame.symm
  | cons id ids ih =>
    obtain ⟨hnew, hids⟩ := List.nodup_cons.1 hids
    let board := t.board.modify source (·.erase id)
    have hrest := ih (t := { t with board := { board with
      removed := t.board.removed ++ (pile.card? id).toList } })
      (Board.pile?_modify_self _ _ hpile _) hids
    simp only [discardEach, on_bind, on_take, on_modify, hpile, Option.bind_some]
    refine hrest.trans ?_
    rw [Pile.filterMap_card?_erase hnew, Pile.filterMap_card?_cons, List.append_assoc]
    exact congrArg (fun b : Board => (_, { t with board := { b with
      removed := t.board.removed ++ ((pile.card? id).toList ++ ids.filterMap pile.card?) } }))
      (t.board.modify_modify source _ _)

/-! ### Moves -/

/-- The answer and the table of what happens at once. -/
def answered (r : Outcome × Table) : Except RuntimeError Outcome × Table := (.ok r.1, r.2)

/-- A transfer in place comes to the transfer at once. -/
theorem on_transfer (source target : PileId) (ids : List CardId) :
    (transfer source target ids).on t =
      answered (Operation.moved t (t.board.transfer source target ids)) := by
  rw [transfer, on_bind, on_get]
  simp only [Board.transfer]
  cases hpile : t.board.pile? source with
  | none => rfl
  | some pile =>
    simp only [Option.bind_eq_bind, Option.bind_some]
    split
    · rfl
    next htake =>
      have hids := Pile.nodup_of_canTake htake
      simp only [on_bind, on_takeEach hpile hids, on_addEach]
      rfl

/-- A transfer from the top in place comes to the transfer at once. -/
theorem on_transferTop (source target : PileId) :
    (transferTop source target).on t =
      answered (Operation.moved t (t.board.transferTop source target)) := by
  rw [transferTop, on_bind, on_get]
  simp only [Board.transferTop]
  cases hpile : t.board.pile? source with
  | none => rfl
  | some pile =>
    simp only [Option.bind_eq_bind, Option.bind_some]
    cases pile.top? with
    | none => rfl
    | some card => exact on_transfer source target [card.id]

/-- A transfer of everything in place comes to the transfer at once. -/
theorem on_transferAll (source target : PileId) :
    (transferAll source target).on t =
      answered (.bool true, { t with board := t.board.transferAll source target }) := by
  unfold transferAll Board.transferAll
  split
  · rfl
  · rw [on_bind, on_get]
    dsimp only
    cases hpile : t.board.pile? source with
    | none => rfl
    | some pile =>
      simp only [on_bind, on_changePile, on_addEach]
      rfl

/-- An exchange in place comes to the exchange at once. -/
theorem on_exchange (a b : PileId) (cardA cardB : CardId) :
    (exchange a b cardA cardB).on t =
      answered (Operation.moved t (t.board.exchange a b cardA cardB)) := by
  rw [exchange, on_bind, on_get]
  simp only [Board.exchange]
  cases t.board.pile? a with
  | none => rfl
  | some pileA =>
    cases t.board.pile? b with
    | none => rfl
    | some pileB =>
      simp only [Option.bind_eq_bind, Option.bind_some]
      split
      · rfl
      · split
        · cases pileA.swap? cardA cardB <;> rfl
        · cases pileA.card? cardA <;> cases pileB.card? cardB <;> rfl

/-- Removing cards in place comes to removing them at once. -/
theorem on_remove (source : PileId) (ids : List CardId) :
    (remove source ids).on t = answered (Operation.moved t (t.board.remove source ids)) := by
  rw [remove, on_bind, on_get]
  simp only [Board.remove]
  cases hpile : t.board.pile? source with
  | none => rfl
  | some pile =>
    simp only [Option.bind_eq_bind, Option.bind_some]
    split
    · rfl
    next htake =>
      have hids := Pile.nodup_of_canTake htake
      rw [on_bind, on_discardEach hpile hids]
      rfl

/-! ### Calls -/

/-- Arguments read and a table left behind, as when an operation runs all at once. -/
theorem on_act (c : Call) (ranking : Ranking) :
    (c.act ranking).on t = atOnce t (c.operation >>= fun op => pure (op.run ranking t)) := by
  obtain ⟨verb, values⟩ := c
  cases verb <;> simp only [Call.act, Call.operation, bind_assoc, pure_bind]
  case endTurn | reverseDirection => rfl
  case goTo | playerWin | playerLose | sortByRank | getSize | checkIfEmpty =>
    exact on_read_bind fun _ => rfl
  case alike | sameFace | sameGroup | sameRank => exact on_read_bind fun _ => rfl
  case compareRank | checkRank | checkIfContains =>
    exact on_read_bind fun _ => on_read_bind fun _ => rfl
  case compareSizeTo | checkSize | compareSizes =>
    exact on_read_bind fun _ => (on_get_bind ..).trans (on_read_bind fun _ => rfl)
  case put | putMultiple =>
    exact on_read_bind fun _ => on_read_bind fun _ => on_read_bind fun _ => on_transfer ..
  case putTop => exact on_read_bind fun _ => on_read_bind fun _ => on_transferTop ..
  case putAll => exact on_read_bind fun _ => on_read_bind fun _ => on_transferAll ..
  case exchange =>
    exact on_read_bind fun _ => on_read_bind fun _ => on_read_bind fun _ => on_read_bind fun _ =>
      on_exchange ..
  case remove => exact on_read_bind fun _ => on_read_bind fun _ => on_remove ..
  case removeAll =>
    refine on_read_bind fun piles => ?_
    have hboard : piles.foldl (fun t pile => { t with board := t.board.removeAll pile }) t =
        { t with board := piles.foldl Board.removeAll t.board } :=
      List.foldl_hom (fun board => { t with board }) fun _ _ => rfl
    rw [on_bind, on_forM, hboard]
    rfl
  case shuffle =>
    refine on_read_bind fun piles => ?_
    rw [on_bind, on_forM]
    rfl

/-- A value that does not belong to the game ends a call, and so does no other. -/
theorem on_checkEach (c : Call) (phases : Nat) (values : List Value) :
    (c.checkEach phases values).on t =
      match values.find? fun value => !value.belongs t phases with
      | some value =>
        (.error (.unusableArgument c.verb.keyword value.describe "not part of this game"), t)
      | none => (.ok (), t) := by
  induction values with
  | nil => rfl
  | cons value values ih =>
    rw [Call.checkEach, on_get_bind, List.find?_cons]
    cases value.belongs t phases with
    | false => rfl
    | true => exact ih

end InPlace

/-- A call that changes the table as it goes comes to what it comes to all at once, and leaves the
table that it found where it fails. -/
theorem Call.on_inPlace (c : Call) (ranking : Ranking) (phases : Nat) (t : Table) :
    (c.inPlace ranking phases).on t = InPlace.atOnce t (Operation.dispatch c ranking phases t) := by
  unfold inPlace Operation.dispatch Operation.prepare
  dsimp only
  split
  · rfl
  · refine (InPlace.on_bind ..).trans ?_
    rw [InPlace.on_checkEach]
    cases c.values.find? fun value => !value.belongs t phases with
    | some value => rfl
    | none => exact InPlace.on_act c ranking

end HouseRules
