import HouseRules.Proofs.Operation.InPlace

/-!
# What a call may change

Each verb has its part of the table (`Call.Confines`): a question changes nothing, a move of cards
the piles that it names, a shuffle their order and the stream that it draws from, and so on up to
the end of a turn. The parts are read off the arguments of the call, so what a call leaves alone is
known before it is carried out.

A call changes nothing at all when it fails or answers no, and the part of its verb otherwise
(`Operation.dispatch_all_or_nothing`). That a failed call changes nothing is said of the run that
changes the table as it goes, where it takes something to say it.

Reference: `OperationResolver.dispatch` (specification 4.3, 8, E3).
-/

namespace HouseRules

open scoped List

/-! ## Boards -/

namespace Board

/-- Nothing has changed but the contents of some piles and the cards out of play. -/
structure ChangesOnly (b b' : Board) (ids : List PileId) : Prop where
  frame : b'.clear = b.clear
  others : ∀ id, id ∉ ids → b'.pile? id = b.pile? id

variable {b b' b'' : Board} {ids : List PileId}

namespace ChangesOnly

/-- Where nothing changes, nothing else does. -/
theorem refl (b : Board) (ids : List PileId) : b.ChangesOnly b ids := ⟨rfl, fun _ _ => rfl⟩

/-- Changes to some piles, one after the other, are changes to these piles. -/
theorem trans (h : b.ChangesOnly b' ids) (h' : b'.ChangesOnly b'' ids) : b.ChangesOnly b'' ids :=
  ⟨h'.frame.trans h.frame, fun id hid => (h'.others id hid).trans (h.others id hid)⟩

/-- Changes to some piles are changes to more piles. -/
theorem mono {ids' : List PileId} (h : b.ChangesOnly b' ids) (hids : ∀ id ∈ ids, id ∈ ids') :
    b.ChangesOnly b' ids' :=
  ⟨h.frame, fun id hid => h.others id fun hmem => hid (hids id hmem)⟩

/-- The cards out of play are no part of any pile. -/
theorem withRemoved (h : b.ChangesOnly b' ids) (cards : List Card) :
    b.ChangesOnly { b' with removed := cards } ids :=
  ⟨(b'.clear_withRemoved cards).trans h.frame, h.others⟩

/-- A change of one pile that keeps its frame. -/
theorem modify {id : PileId} {change : Pile → Pile} (hid : id ∈ ids)
    (h : ∀ p, b.pile? id = some p → (change p).clear = p.clear) :
    b.ChangesOnly (b.modify id change) ids := by
  refine ⟨clear_modify h, fun other hother => ?_⟩
  have hne : id ≠ other := by
    rintro rfl
    exact hother hid
  rw [pile?_modify, if_neg (PileId.index_ne hne)]

/-- Changes of two piles that keep their frames. -/
theorem modify_modify (b : Board) (x y : PileId) {f g : Pile → Pile}
    (hf : ∀ p, (f p).clear = p.clear) (hg : ∀ p, (g p).clear = p.clear) :
    b.ChangesOnly ((b.modify x f).modify y g) [x, y] :=
  have hx : b.ChangesOnly (b.modify x f) [x, y] := .modify List.mem_cons_self fun p _ => hf p
  hx.trans (.modify (List.mem_cons_of_mem x List.mem_cons_self) fun p _ => hg p)

end ChangesOnly

/-! ### Moves -/

/-- A transfer changes its source and its target, and takes no card out of play. -/
theorem changesOnly_transfer {source target : PileId} {cards : List CardId}
    (h : b.transfer source target cards = some b') :
    b.ChangesOnly b' [source, target] ∧ b'.removed = b.removed := by
  obtain ⟨p, -, -, -, rfl⟩ := transfer_eq_some.1 h
  exact ⟨.modify_modify b source target (fun p => p.clear_eraseAll cards) fun p => p.clear_addAll _,
    rfl⟩

/-- A transfer from the top changes its source and its target, and takes no card out of play. -/
theorem changesOnly_transferTop {source target : PileId}
    (h : b.transferTop source target = some b') :
    b.ChangesOnly b' [source, target] ∧ b'.removed = b.removed := by
  simp only [transferTop, Option.bind_eq_bind, Option.bind_eq_some_iff] at h
  obtain ⟨_, -, card, -, h⟩ := h
  exact changesOnly_transfer h

/-- A transfer of everything changes its source and its target, and takes no card out of play. -/
theorem changesOnly_transferAll (b : Board) (source target : PileId) :
    b.ChangesOnly (b.transferAll source target) [source, target] ∧
      (b.transferAll source target).removed = b.removed := by
  unfold transferAll
  split
  · exact ⟨.refl .., rfl⟩
  · split
    · exact ⟨.modify_modify b source target Pile.clear_clear fun p => p.clear_addAll _, rfl⟩
    · exact ⟨.refl .., rfl⟩

/-- An exchange changes its two piles, and takes no card out of play. -/
theorem changesOnly_exchange {x y : PileId} {cardX cardY : CardId}
    (h : b.exchange x y cardX cardY = some b') :
    b.ChangesOnly b' [x, y] ∧ b'.removed = b.removed := by
  simp only [exchange, Option.bind_eq_bind, Option.bind_eq_some_iff] at h
  obtain ⟨pileX, hX, pileY, -, h⟩ := h
  split at h
  · cases h
  · split at h
    · obtain ⟨swapped, hswap, h⟩ := Option.bind_eq_some_iff.1 h
      cases h
      refine ⟨.modify (by simp) fun p hp => ?_, rfl⟩
      rw [hX] at hp
      cases hp
      exact Pile.clear_swap? hswap
    · simp only [Option.bind_eq_some_iff] at h
      obtain ⟨first, -, second, -, h⟩ := h
      cases h
      exact ⟨.modify_modify b x y (fun p => p.clear_replace ..) fun p => p.clear_replace .., rfl⟩

/-- Removing cards changes the pile that they lay on. -/
theorem changesOnly_remove {source : PileId} {cards : List CardId}
    (h : b.remove source cards = some b') : b.ChangesOnly b' [source] := by
  simp only [remove, Option.bind_eq_bind, Option.bind_eq_some_iff] at h
  obtain ⟨pile, -, h⟩ := h
  split at h
  · cases h
  · cases h
    exact .withRemoved (.modify (by simp) fun p _ => p.clear_eraseAll cards) _

/-- Removing all cards changes the pile that they lay on. -/
theorem changesOnly_removeAll {source : PileId} (b : Board) (h : source ∈ ids) :
    b.ChangesOnly (b.removeAll source) ids := by
  unfold removeAll
  split
  · exact .withRemoved (.modify h fun p _ => p.clear_clear) _
  · exact .refl ..

/-- Removing all cards of some piles changes these piles. -/
theorem changesOnly_foldl_removeAll (b : Board) (ids : List PileId) :
    b.ChangesOnly (ids.foldl removeAll b) ids := by
  -- The fold runs over some of the piles that may change.
  suffices h : ∀ (part : List PileId) (b : Board), (∀ id ∈ part, id ∈ ids) →
      b.ChangesOnly (part.foldl removeAll b) ids from h ids b fun _ => id
  intro part
  induction part with
  | nil => exact fun b _ => .refl b ids
  | cons id part ih =>
    intro b hpart
    obtain ⟨hid, hpart⟩ := List.forall_mem_cons.1 hpart
    exact (b.changesOnly_removeAll hid).trans (ih _ hpart)

/-! ### Orders -/

/-- Nothing has changed but the order of the cards in some piles. -/
structure Reorders (b b' : Board) (ids : List PileId) : Prop extends b.ChangesOnly b' ids where
  removed : b'.removed = b.removed
  cards : ∀ id, b'.cardsAt id ~ b.cardsAt id

namespace Reorders

/-- Where nothing changes, no order does. -/
theorem refl (b : Board) (ids : List PileId) : b.Reorders b ids :=
  ⟨.refl b ids, rfl, fun _ => .refl _⟩

/-- Reorderings of some piles, one after the other, are reorderings of these piles. -/
theorem trans (h : b.Reorders b' ids) (h' : b'.Reorders b'' ids) : b.Reorders b'' ids :=
  ⟨h.toChangesOnly.trans h'.toChangesOnly, h'.removed.trans h.removed,
    fun id => (h'.cards id).trans (h.cards id)⟩

/-- A change of one pile that keeps its frame and its cards. -/
theorem modify {id : PileId} {change : Pile → Pile} (hid : id ∈ ids)
    (h : ∀ p, b.pile? id = some p → (change p).clear = p.clear ∧ (change p).cards ~ p.cards) :
    b.Reorders (b.modify id change) ids := by
  refine ⟨.modify hid fun p hp => (h p hp).1, rfl, fun other => ?_⟩
  rw [cardsAt, cardsAt, pile?_modify]
  split
  next heq =>
    have heq : id = other := congrArg PileId.mk heq
    subst heq
    cases hp : b.pile? id with
    | none => exact .refl _
    | some p => exact (h p hp).2
  next => exact .refl _

end Reorders

/-- Sorting a pile reorders it. -/
theorem reorders_sort (b : Board) (id : PileId) (compare : Card → Card → Ordering) :
    b.Reorders (b.modify id (·.sort compare)) [id] :=
  .modify (by simp) fun _ _ => ⟨rfl, List.mergeSort_perm ..⟩

/-- Shuffling a pile reorders it. -/
theorem reorders_shuffle {id : PileId} (b : Board) (stream : Chance.Stream) (hid : id ∈ ids) :
    b.Reorders (b.shuffle id stream).1 ids := by
  unfold shuffle
  split
  next pile hpile =>
    refine .modify hid fun p hp => ?_
    rw [hpile] at hp
    cases hp
    exact ⟨rfl, Chance.shuffle_perm ..⟩
  next => exact .refl b ids

end Board

/-! ## Tables -/

namespace Table

/-- Nothing has changed but the contents of some piles. -/
def MovesWithin (t t' : Table) (ids : List PileId) : Prop :=
  ∃ board, t' = { t with board } ∧ t.board.ChangesOnly board ids ∧
    board.removed = t.board.removed

/-- Nothing has changed but the contents of some piles and the cards out of play. -/
def DiscardsFrom (t t' : Table) (ids : List PileId) : Prop :=
  ∃ board, t' = { t with board } ∧ t.board.ChangesOnly board ids

/-- Nothing has changed but the order of the cards in some piles. -/
def Reorders (t t' : Table) (ids : List PileId) : Prop :=
  ∃ board, t' = { t with board } ∧ t.board.Reorders board ids

end Table

/-! ## Calls -/

namespace Call

/-- The piles that the argument at a place names. -/
def pilesAt (c : Call) (index : Nat) : List PileId := (c.values[index]?.map Value.asPiles).getD []

/-- What the verb of a call may change, by the arguments of the call. -/
def Confines (c : Call) (t t' : Table) : Prop :=
  match c.verb with
  | .alike | .sameFace | .sameGroup | .sameRank | .compareRank | .checkRank | .compareSizeTo
  | .compareSizes | .checkSize | .checkIfEmpty | .checkIfContains | .getSize => t' = t
  | .put | .putMultiple | .putTop | .putAll | .exchange =>
    t.MovesWithin t' (c.pilesAt 0 ++ c.pilesAt 1)
  | .remove | .removeAll => t.DiscardsFrom t' (c.pilesAt 0)
  | .sortByRank => t.Reorders t' (c.pilesAt 0)
  | .shuffle => ∃ stream, { t with stream }.Reorders t' (c.pilesAt 0)
  | .goTo =>
    ∃ phase, c.values[0]? = some (.phase phase) ∧
      t' = t.modifyPlayer t.current fun p => { p with phase := some phase }
  | .playerWin =>
    ∃ seat, c.values[0]? = some (.player seat) ∧
      t' = t.modifyPlayer seat fun p => { p with status := .won }
  | .playerLose =>
    ∃ seat, c.values[0]? = some (.player seat) ∧
      t' = t.modifyPlayer seat fun p => { p with status := .lost }
  | .endTurn => ∃ seat turn, t' = { t with current := seat, turn }
  | .reverseDirection => t' = { t with direction := t.direction.reversed }

variable {c : Call} {i : Nat}

/-- An argument is read as a seat just when it is one. -/
theorem seat_ok {seat : Seat} : c.seat i = .ok seat ↔ c.values[i]? = some (.player seat) := by
  rw [Call.seat, read_ok]
  constructor
  · rintro ⟨v, hv, h⟩
    split at h
    · cases h
      exact hv
    · cases h
  · exact fun hv => ⟨_, hv, rfl⟩

/-- Where an argument is a pile it names this pile. -/
theorem pilesAt_of_pile {id : PileId} (h : c.pile i = .ok id) : c.pilesAt i = [id] := by
  rw [pilesAt, pile_ok.1 h]
  rfl

/-- Where an argument is one pile or several it names these. -/
theorem pilesAt_of_piles {ids : List PileId} (h : c.piles i = .ok ids) : c.pilesAt i = ids := by
  obtain ⟨v, hv, h⟩ := read_ok.1 h
  rw [pilesAt, hv]
  split at h
  · exact Option.some.inj h
  · cases h

end Call

namespace Operation

variable {c : Call} {t t' : Table} {op : Operation}

/-- A move that is refused changes nothing. -/
theorem eq_of_moved {b : Option Board} (h : moved t b = (.bool false, t')) : t' = t := by
  cases b with
  | none => exact (Prod.mk.inj h).2.symm
  | some b' => simp [moved] at h

/-- A move within some piles changes these at the table, done or refused. -/
theorem movesWithin_moved {b : Option Board} {ids : List PileId}
    (h : ∀ b', b = some b' → t.board.ChangesOnly b' ids ∧ b'.removed = t.board.removed) :
    t.MovesWithin (moved t b).2 ids := by
  cases b with
  | none => exact ⟨t.board, rfl, .refl .., rfl⟩
  | some b' => exact ⟨b', rfl, h b' rfl⟩

/-- A move out of some piles changes these and the cards out of play, done or refused. -/
theorem discardsFrom_moved {b : Option Board} {ids : List PileId}
    (h : ∀ b', b = some b' → t.board.ChangesOnly b' ids) : t.DiscardsFrom (moved t b).2 ids := by
  cases b with
  | none => exact ⟨t.board, rfl, .refl ..⟩
  | some b' => exact ⟨b', rfl, h b' rfl⟩

/-- Shuffling piles one after the other changes their order and the stream. -/
theorem reorders_shuffleAll (t : Table) (ids : List PileId) :
    ∃ stream, Table.Reorders { t with stream } (shuffleAll t ids) ids := by
  suffices h : ∀ (part : List PileId) (t : Table), (∀ id ∈ part, id ∈ ids) →
      ∃ stream, Table.Reorders { t with stream } (shuffleAll t part) ids from h ids t fun _ => id
  intro part
  induction part with
  | nil => exact fun t _ => ⟨t.stream, t.board, rfl, .refl ..⟩
  | cons id part ih =>
    intro t hpart
    obtain ⟨hid, hpart⟩ := List.forall_mem_cons.1 hpart
    obtain ⟨stream, board, heq, hboard⟩ := ih { t with
      board := (t.board.shuffle id t.stream).1, stream := (t.board.shuffle id t.stream).2 } hpart
    exact ⟨stream, board, heq, (t.board.reorders_shuffle t.stream hid).trans hboard⟩

/-- An operation answers no only where it changes nothing. -/
theorem eq_of_run_false {ranking : Ranking} (h : op.run ranking t = (.bool false, t')) :
    t' = t := by
  cases op with
  | transfer | transferTop | exchange | remove => exact eq_of_moved h
  | endTurn | enterPhase | setStatus | reverse | sort | transferAll | removeAll | shuffle => cases h
  | _ => exact (Prod.mk.inj h).2.symm

/-- The operation of a call changes what the verb may change. -/
theorem confines_operation (ranking : Ranking) (h : c.operation = .ok op) :
    c.Confines t (op.run ranking t).2 := by
  obtain ⟨verb, values⟩ := c
  cases verb <;> simp only [Call.operation, bind_ok, pure_ok] at h
  case endTurn =>
    subst h
    obtain ⟨seat, turn, heq, -⟩ := t.advanceTurn_eq
    exact ⟨seat, turn, heq⟩
  case reverseDirection =>
    subst h
    rfl
  case goTo =>
    obtain ⟨phase, hphase, rfl⟩ := h
    exact ⟨phase, Call.phase_ok.1 hphase, rfl⟩
  case playerWin | playerLose =>
    obtain ⟨seat, hseat, rfl⟩ := h
    exact ⟨seat, Call.seat_ok.1 hseat, rfl⟩
  case alike | sameFace | sameGroup | sameRank | checkIfEmpty | getSize =>
    obtain ⟨_, -, rfl⟩ := h
    rfl
  case compareRank | checkRank | compareSizeTo | compareSizes | checkSize | checkIfContains =>
    obtain ⟨_, -, _, -, rfl⟩ := h
    rfl
  case sortByRank =>
    obtain ⟨pile, hpile, rfl⟩ := h
    exact ⟨_, rfl, Call.pilesAt_of_pile hpile ▸ t.board.reorders_sort pile ranking.compare⟩
  case put | putMultiple =>
    obtain ⟨source, hsource, target, htarget, _, -, rfl⟩ := h
    rw [Call.Confines, Call.pilesAt_of_pile hsource, Call.pilesAt_of_pile htarget]
    exact movesWithin_moved fun _ => Board.changesOnly_transfer
  case putTop =>
    obtain ⟨source, hsource, target, htarget, rfl⟩ := h
    rw [Call.Confines, Call.pilesAt_of_pile hsource, Call.pilesAt_of_pile htarget]
    exact movesWithin_moved fun _ => Board.changesOnly_transferTop
  case putAll =>
    obtain ⟨source, hsource, target, htarget, rfl⟩ := h
    rw [Call.Confines, Call.pilesAt_of_pile hsource, Call.pilesAt_of_pile htarget]
    exact ⟨_, rfl, t.board.changesOnly_transferAll source target⟩
  case exchange =>
    obtain ⟨a, ha, b, hb, _, -, _, -, rfl⟩ := h
    rw [Call.Confines, Call.pilesAt_of_pile ha, Call.pilesAt_of_pile hb]
    exact movesWithin_moved fun _ => Board.changesOnly_exchange
  case remove =>
    obtain ⟨source, hsource, _, -, rfl⟩ := h
    rw [Call.Confines, Call.pilesAt_of_pile hsource]
    exact discardsFrom_moved fun _ => Board.changesOnly_remove
  case removeAll =>
    obtain ⟨ids, hids, rfl⟩ := h
    rw [Call.Confines, Call.pilesAt_of_piles hids]
    exact ⟨_, rfl, t.board.changesOnly_foldl_removeAll ids⟩
  case shuffle =>
    obtain ⟨ids, hids, rfl⟩ := h
    rw [Call.Confines, Call.pilesAt_of_piles hids]
    exact reorders_shuffleAll t ids

/-- **A call does all or nothing.** Where it fails, the run that changes the table as it goes fails
too, and has changed nothing. Where it answers, so does that run, with the same table; the answer no
changes nothing, and every answer no more than the verb may change. -/
theorem dispatch_all_or_nothing (c : Call) (ranking : Ranking) (phases : Nat) (t : Table) :
    (∀ e, dispatch c ranking phases t = .error e →
        (c.inPlace ranking phases).on t = (.error e, t)) ∧
      ∀ outcome t', dispatch c ranking phases t = .ok (outcome, t') →
        (c.inPlace ranking phases).on t = (.ok outcome, t') ∧
          (outcome = .bool false → t' = t) ∧ c.Confines t t' := by
  rw [Call.on_inPlace]
  constructor
  · intro e h
    rw [h]
    rfl
  · intro outcome t' h
    obtain ⟨op, hprepare, hrun⟩ := dispatch_ok.1 h
    obtain ⟨-, -, hop⟩ := prepare_ok.1 hprepare
    have hconfines := confines_operation (t := t) ranking hop
    rw [hrun] at hconfines
    refine ⟨by rw [h]; rfl, ?_, hconfines⟩
    rintro rfl
    exact eq_of_run_false hrun

/-- A table with one pile of two cards. -/
def twoCards : Table :=
  .fresh ⟨[⟨"stock", ⟨0⟩, none, {}, [⟨0, "a", none⟩, ⟨1, "b", none⟩]⟩], []⟩ [.seated "ann" []]
    .clockwise (.ofSeed 0)

/-- A shuffle changes more than the order of the cards: the stream has moved on when it is done. -/
theorem shuffle_draws :
    twoCards.current.index < twoCards.count ∧
      ∃ t', dispatch ⟨.shuffle, [.pile ⟨0⟩]⟩ .flat 0 twoCards = .ok (.bool true, t') ∧
        ¬ twoCards.Reorders t' [⟨0⟩] := by
  refine ⟨by decide, shuffleAll twoCards [⟨0⟩], rfl, ?_⟩
  rintro ⟨board, heq, -⟩
  have hblock : (shuffleAll twoCards [⟨0⟩]).stream.block = twoCards.stream.block := by rw [heq]
  exact absurd hblock (by decide +kernel)

end Operation

end HouseRules
