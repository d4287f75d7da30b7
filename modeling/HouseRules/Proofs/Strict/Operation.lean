import HouseRules.Proofs.Strict.Pile
import HouseRules.Proofs.Strict.Sort
import HouseRules.Proofs.Strict.Table

/-!
# Calls read strictly

A verb takes the piles and the players that its arguments name by their numbers, each when it comes
to it. Some verbs look at their first pile before they look at their second argument, so they have
done so also where that one turns out to be missing or of the wrong kind.

The check at the head of a call sees to it that all that is named is at the table, so a call read
strictly comes to what the plain one does, whatever its arguments (`Operation.dispatchStrict_eq`).
-/

namespace HouseRules

/-- `Table.modifyPlayer`, read strictly. -/
def Table.modifyPlayerStrict (t : Table) (seat : Seat) (change : Player → Player) :
    Option Table := do
  let player ← t.player? seat
  return t.modifyPlayer seat fun _ => change player

namespace Operation

/-- `Operation.sizeOf`, read strictly. -/
def sizeOfStrict (t : Table) (id : PileId) : Option Nat := (t.board.pile? id).map (·.size)

/-- Whether all of some piles are empty; none is looked at after the first that is not. -/
def allEmptyStrict (t : Table) : List PileId → Option Bool
  | [] => some true
  | id :: ids => do
    let size ← sizeOfStrict t id
    if size = 0 then allEmptyStrict t ids else return false

/-- `Operation.shuffleAll`, read strictly. -/
def shuffleAllStrict (t : Table) (ids : List PileId) : Option Table :=
  ids.foldlM (fun t id => do
    let (board, stream) ← t.board.shuffleStrict id t.stream
    return { t with board, stream }) t

/-- Takes all cards of some piles out of play, read strictly. -/
def removeEachStrict (t : Table) (ids : List PileId) : Option Board :=
  ids.foldlM Board.removeAllStrict t.board

/-- Sorts a pile, read strictly. -/
def sortStrict (ranking : Ranking) (t : Table) (id : PileId) : Option Table := do
  let pile ← t.board.pile? id
  let sorted ← pile.sortStrict ranking.compare
  return { t with board := t.board.modify id fun _ => sorted }

end Operation

open Operation (agree moved ofOrdering sizeOfStrict)

/-- Carries out the verb of a call, read strictly: each argument, each pile and each player is taken
where the verb comes to it. -/
def Call.actStrict (c : Call) (ranking : Ranking) (t : Table) :
    Strict RuntimeError (Outcome × Table) := do
  match c.verb with
  | .endTurn => return (.bool true, ← t.advanceTurnStrict)
  | .goTo =>
    let phase ← c.phase 0
    let t ← t.modifyPlayerStrict t.current fun p => { p with phase := some phase }
    return (.bool true, t)
  | .playerWin =>
    let seat ← c.seat 0
    let t ← t.modifyPlayerStrict seat fun p => { p with status := .won }
    return (.bool true, t)
  | .playerLose =>
    let seat ← c.seat 0
    let t ← t.modifyPlayerStrict seat fun p => { p with status := .lost }
    return (.bool true, t)
  | .reverseDirection => return (.bool true, { t with direction := t.direction.reversed })
  | .alike => return (.bool (agree (Likeness.attributes.holds ranking) (← c.cards 0)), t)
  | .sameFace => return (.bool (agree (Likeness.face.holds ranking) (← c.cards 0)), t)
  | .sameGroup => return (.bool (agree (Likeness.group.holds ranking) (← c.cards 0)), t)
  | .sameRank => return (.bool (agree (Likeness.rank.holds ranking) (← c.cards 0)), t)
  | .compareRank => return (ofOrdering (ranking.compare (← c.card 0) (← c.card 1)), t)
  | .checkRank => return (.bool (ranking.outranks (← c.card 0) (← c.card 1)), t)
  | .sortByRank =>
    let pile ← c.pile 0
    let t ← Operation.sortStrict ranking t pile
    return (.bool true, t)
  | .compareSizeTo =>
    let pile ← c.pile 0
    let size ← sizeOfStrict t pile
    let n ← c.integer 1
    return (ofOrdering (compare (Int.ofNat size) n), t)
  | .compareSizes =>
    let a ← c.pile 0
    let sizeA ← sizeOfStrict t a
    let b ← c.pile 1
    let sizeB ← sizeOfStrict t b
    return (ofOrdering (compare sizeA sizeB), t)
  | .checkSize =>
    let pile ← c.pile 0
    let size ← sizeOfStrict t pile
    let n ← c.integer 1
    return (.bool (Int.ofNat size == n), t)
  | .checkIfEmpty =>
    let piles ← c.piles 0
    let answer ← Operation.allEmptyStrict t piles
    return (.bool answer, t)
  | .checkIfContains =>
    let id ← c.pile 0
    let pile ← t.board.pile? id
    let card ← c.card 1
    return (.bool (pile.contains card.id), t)
  | .getSize =>
    let pile ← c.pile 0
    let size ← sizeOfStrict t pile
    return (.integer (Int.ofNat size), t)
  | .put =>
    let source ← c.pile 0
    let target ← c.pile 1
    let card ← c.card 2
    let board ← t.board.transferStrict source target [card.id]
    return moved t board
  | .putMultiple =>
    let source ← c.pile 0
    let target ← c.pile 1
    let cards ← c.cards 2
    let board ← t.board.transferStrict source target (cards.map (·.id))
    return moved t board
  | .putTop =>
    let source ← c.pile 0
    let target ← c.pile 1
    let board ← t.board.transferTopStrict source target
    return moved t board
  | .putAll =>
    let source ← c.pile 0
    let target ← c.pile 1
    let board ← t.board.transferAllStrict source target
    return (.bool true, { t with board })
  | .exchange =>
    let a ← c.pile 0
    let b ← c.pile 1
    let cardA ← c.card 2
    let cardB ← c.card 3
    let board ← t.board.exchangeStrict a b cardA.id cardB.id
    return moved t board
  | .remove =>
    let pile ← c.pile 0
    let card ← c.card 1
    let board ← t.board.removeStrict pile [card.id]
    return moved t board
  | .removeAll =>
    let piles ← c.piles 0
    let board ← Operation.removeEachStrict t piles
    return (.bool true, { t with board })
  | .shuffle =>
    let piles ← c.piles 0
    let t ← Operation.shuffleAllStrict t piles
    return (.bool true, t)

/-- `Operation.dispatch`, read strictly. -/
def Operation.dispatchStrict (c : Call) (ranking : Ranking) (phases : Nat) (t : Table) :
    Strict RuntimeError (Outcome × Table) := do
  let arity := c.verb.signature.arity
  if c.values.length < arity then
    throw (.wrongArgumentCount c.verb.keyword arity c.values.length)
  match c.values.find? fun value => !value.belongs t phases with
  | some value => throw (.unusableArgument c.verb.keyword value.describe "not part of this game")
  | none => c.actStrict ranking t

/-! ## What a checked call names is at the table -/

namespace Call

variable {c : Call} {t : Table} {phases : Nat} {i : Nat}

/-- A seat that a checked call names is one of the table. -/
theorem seat_lt (hbelongs : ∀ v ∈ c.values, v.belongs t phases = true) {seat : Seat}
    (h : c.seat i = .ok seat) : seat.index < t.count := by
  obtain ⟨v, hv, hseat⟩ := read_ok.1 h
  have := hbelongs v (List.mem_of_getElem? hv)
  cases v <;> cases hseat
  exact of_decide_eq_true this

/-- A pile that a checked call names is on the board. -/
theorem pile_lt (hbelongs : ∀ v ∈ c.values, v.belongs t phases = true) {id : PileId}
    (h : c.pile i = .ok id) : id.index < t.board.size :=
  of_decide_eq_true (hbelongs _ (List.mem_of_getElem? (pile_ok.1 h)))

/-- Several piles that a checked call names are on the board. -/
theorem piles_lt (hbelongs : ∀ v ∈ c.values, v.belongs t phases = true) {ids : List PileId}
    (h : c.piles i = .ok ids) : ∀ id ∈ ids, id.index < t.board.size := by
  obtain ⟨v, hv, hids⟩ := read_ok.1 h
  split at hids
  · cases hids
    exact fun id hid => Value.asPiles_lt (hbelongs v (List.mem_of_getElem? hv)) hid
  · cases hids

end Call

/-! ## The same outcome -/

/-- Removing the cards of a pile leaves as many piles as there were. -/
theorem Board.size_removeAll (b : Board) (id : PileId) : (b.removeAll id).size = b.size := by
  unfold removeAll
  split
  · exact b.size_modify id Pile.clear
  · rfl

/-- Shuffling a pile leaves as many piles as there were. -/
theorem Board.size_shuffle (b : Board) (id : PileId) (stream : Chance.Stream) :
    (b.shuffle id stream).1.size = b.size := by
  unfold shuffle
  split
  · exact b.size_modify id _
  · rfl

/-- Changing a player takes one who is at the table. -/
theorem Table.modifyPlayerStrict_eq {t : Table} {seat : Seat} (h : seat.index < t.count)
    (change : Player → Player) :
    t.modifyPlayerStrict seat change = some (t.modifyPlayer seat change) := by
  obtain ⟨player, hplayer⟩ := exists_player? h
  rw [modifyPlayerStrict, hplayer, Option.bind_eq_bind, Option.bind_some, modifyPlayer,
    modifyPlayer]
  refine congrArg some (congrArg (fun players => { t with players }) ?_)
  refine List.ext_getElem? fun j => ?_
  rw [List.getElem?_modify, List.getElem?_modify]
  split
  next hj =>
    subst hj
    rw [show t.players[seat.index]? = some player from hplayer]
    rfl
  next => rfl

namespace Operation

variable {c : Call} {t : Table} {phases : Nat} {ranking : Ranking}

/-- Looking up the size of a pile takes a pile that is there. -/
theorem sizeOfStrict_eq {id : PileId} (h : id.index < t.board.size) :
    sizeOfStrict t id = some (sizeOf t id) := by
  obtain ⟨pile, hpile⟩ := Board.exists_pile? h
  rw [sizeOfStrict, sizeOf, hpile]
  rfl

/-- Asking whether piles are empty takes piles that are there. -/
theorem allEmptyStrict_eq {ids : List PileId} (h : ∀ id ∈ ids, id.index < t.board.size) :
    allEmptyStrict t ids = some (ids.all fun id => sizeOf t id == 0) := by
  induction ids with
  | nil => rfl
  | cons id ids ih =>
    rw [allEmptyStrict, sizeOfStrict_eq (h id List.mem_cons_self), Option.bind_eq_bind,
      Option.bind_some, ih fun id hid => h id (List.mem_cons_of_mem _ hid), List.all_cons]
    cases hsize : sizeOf t id == 0 with
    | true => exact if_pos (beq_iff_eq.1 hsize)
    | false => exact if_neg (ne_of_beq_false hsize)

/-- Sorting a pile takes a pile that is there. -/
theorem sortStrict_eq {id : PileId} (h : id.index < t.board.size) :
    sortStrict ranking t id =
      some { t with board := t.board.modify id (·.sort ranking.compare) } := by
  obtain ⟨pile, hpile⟩ := Board.exists_pile? h
  rw [sortStrict, hpile, Option.bind_eq_bind, Option.bind_some,
    Pile.sortStrict_eq ranking.isTotalPreorder_compare, Option.bind_some,
    Board.modify_eq_of_pile? hpile (·.sort ranking.compare)]
  rfl

/-- Removing the cards of piles takes piles that are there. -/
theorem removeEachStrict_eq {ids : List PileId} (h : ∀ id ∈ ids, id.index < t.board.size) :
    removeEachStrict t ids = some (ids.foldl Board.removeAll t.board) := by
  refine foldlM_eq_some (fun board => board.size = t.board.size) (fun board hsize id hid => ?_) rfl
  have hlt : id.index < board.size := hsize ▸ h id hid
  exact ⟨Board.removeAllStrict_eq hlt, (Board.size_removeAll ..).trans hsize⟩

/-- Shuffling piles takes piles that are there. -/
theorem shuffleAllStrict_eq {ids : List PileId} (h : ∀ id ∈ ids, id.index < t.board.size) :
    shuffleAllStrict t ids = some (shuffleAll t ids) := by
  refine foldlM_eq_some (fun t' => t'.board.size = t.board.size) (fun t' hsize id hid => ?_) rfl
  have hlt : id.index < t'.board.size := hsize ▸ h id hid
  refine ⟨?_, (Board.size_shuffle ..).trans hsize⟩
  rw [Board.shuffleStrict_eq hlt]
  rfl

/-- A verb that is given only what is at the table finds all that it takes. -/
theorem actStrict_eq (hbelongs : ∀ v ∈ c.values, v.belongs t phases = true)
    (hcurrent : t.current.index < t.count) (hcount : t.count ≤ 255) :
    c.actStrict ranking t = some (c.operation >>= fun op => pure (op.run ranking t)) := by
  have hpile : ∀ {i id}, c.pile i = .ok id → id.index < t.board.size := Call.pile_lt hbelongs
  have hpiles : ∀ {i ids}, c.piles i = .ok ids → ∀ id ∈ ids, id.index < t.board.size :=
    Call.piles_lt hbelongs
  have hseat : ∀ {i seat}, c.seat i = .ok seat → seat.index < t.count := Call.seat_lt hbelongs
  obtain ⟨verb, values⟩ := c
  cases verb <;> simp only [Call.actStrict, Call.operation, bind_assoc, pure_bind]
  case endTurn =>
    rw [Strict.take_bind (Table.advanceTurnStrict_eq (Nat.zero_lt_of_lt hcurrent) hcount)]
    rfl
  case reverseDirection => rfl
  case alike | sameFace | sameGroup | sameRank => exact Strict.read_bind fun _ _ => rfl
  case compareRank | checkRank =>
    exact Strict.read_bind fun _ _ => Strict.read_bind fun _ _ => rfl
  case goTo =>
    refine Strict.read_bind fun phase _ => ?_
    rw [Strict.take_bind (Table.modifyPlayerStrict_eq hcurrent _)]
    rfl
  case playerWin | playerLose =>
    refine Strict.read_bind fun seat h => ?_
    rw [Strict.take_bind (Table.modifyPlayerStrict_eq (hseat h) _)]
    rfl
  case sortByRank =>
    refine Strict.read_bind fun id h => ?_
    rw [Strict.take_bind (sortStrict_eq (hpile h))]
    rfl
  case compareSizeTo | checkSize =>
    refine Strict.read_bind fun id h => ?_
    rw [Strict.take_bind (sizeOfStrict_eq (hpile h))]
    exact Strict.read_bind fun _ _ => rfl
  case compareSizes =>
    refine Strict.read_bind fun a ha => ?_
    rw [Strict.take_bind (sizeOfStrict_eq (hpile ha))]
    refine Strict.read_bind fun b hb => ?_
    rw [Strict.take_bind (sizeOfStrict_eq (hpile hb))]
    rfl
  case checkIfEmpty =>
    refine Strict.read_bind fun ids h => ?_
    rw [Strict.take_bind (allEmptyStrict_eq (hpiles h))]
    rfl
  case checkIfContains =>
    refine Strict.read_bind fun id h => ?_
    obtain ⟨pile, hfound⟩ := Board.exists_pile? (hpile h)
    rw [Strict.take_bind hfound]
    refine Strict.read_bind fun card _ => ?_
    rw [run, hfound]
    rfl
  case getSize =>
    refine Strict.read_bind fun id h => ?_
    rw [Strict.take_bind (sizeOfStrict_eq (hpile h))]
    rfl
  case put | putMultiple =>
    refine Strict.read_bind fun source hs => Strict.read_bind fun target ht =>
      Strict.read_bind fun cards _ => ?_
    rw [Strict.take_bind (Board.transferStrict_eq (hpile hs) (hpile ht) _)]
    rfl
  case putTop =>
    refine Strict.read_bind fun source hs => Strict.read_bind fun target ht => ?_
    rw [Strict.take_bind (Board.transferTopStrict_eq (hpile hs) (hpile ht))]
    rfl
  case putAll =>
    refine Strict.read_bind fun source hs => Strict.read_bind fun target ht => ?_
    rw [Strict.take_bind (Board.transferAllStrict_eq (hpile hs) (hpile ht))]
    rfl
  case exchange =>
    refine Strict.read_bind fun a ha => Strict.read_bind fun b hb =>
      Strict.read_bind fun cardA _ => Strict.read_bind fun cardB _ => ?_
    rw [Strict.take_bind (Board.exchangeStrict_eq (hpile ha) (hpile hb) _ _)]
    rfl
  case remove =>
    refine Strict.read_bind fun id h => Strict.read_bind fun card _ => ?_
    rw [Strict.take_bind (Board.removeStrict_eq (hpile h) _)]
    rfl
  case removeAll =>
    refine Strict.read_bind fun ids h => ?_
    rw [Strict.take_bind (removeEachStrict_eq (hpiles h))]
    rfl
  case shuffle =>
    refine Strict.read_bind fun ids h => ?_
    rw [Strict.take_bind (shuffleAllStrict_eq (hpiles h))]
    rfl

/-- A call finds all that it takes, whatever its arguments. -/
theorem dispatchStrict_eq (c : Call) (ranking : Ranking) (phases : Nat)
    (hcurrent : t.current.index < t.count) (hcount : t.count ≤ 255) :
    dispatchStrict c ranking phases t = some (dispatch c ranking phases t) := by
  unfold dispatchStrict dispatch prepare
  dsimp only
  split
  · rfl
  · cases hfind : c.values.find? fun value => !value.belongs t phases with
    | some value => rfl
    | none =>
      have hbelongs : ∀ v ∈ c.values, v.belongs t phases = true := fun v hv => by
        simpa using List.find?_eq_none.1 hfind v hv
      exact actStrict_eq hbelongs hcurrent hcount

end Operation

end HouseRules
