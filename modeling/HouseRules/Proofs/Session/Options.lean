import HouseRules.Proofs.Board.Moves
import HouseRules.Proofs.Session.Conservation

/-!
# Options are what can be moved

What a session offers for an open card and what it lets happen to a card are worked out apart. The
options are the cards that may be taken from the pile named in the signature (`Pile.removable`); a
move looks for the number of the card it is given in the pile it is given (`Pile.canTake`). The two
agree for every removal policy (`Pile.canTake_iff_removable`), provided that no two cards of a pile
have one number and that the card asked for is the one of its number. Both hold throughout a game:
the cards of a deck are numbered in order (`Deck.number_distinct`) and those in play are the deck's
(`Session.InPlay.cards`).

So the options for an action that moves or removes one card are the cards of the deck with which it
answers true, and those of an exchange are the pairs with which it does
(`Session.options_are_movable`).

Reference: `Engine.options`, `targeting.enumerate` (specification 4.5, E3).
-/

namespace HouseRules

/-! ## Numbers of cards -/

namespace Deck

/-- Cards are numbered in order. -/
theorem map_id_number (pairs : List (String × Option String)) :
    (number pairs).map (·.id) = List.range pairs.length := by
  rw [number, List.map_map, List.range_eq_range', ← List.zipIdx_map_snd]
  rfl

/-- The cards of a compiled deck have different numbers. -/
theorem number_distinct {doc : Document} {d : Deck} (h : compile doc = .ok d) :
    (d.cards.map (·.id)).Nodup := by
  simp only [compile, bind_ok, pure_ok] at h
  obtain ⟨_, -, _, -, pairs, -, rfl⟩ := h
  rw [map_id_number]
  exact List.nodup_range

/-- A card of the deck is known by its number. -/
theorem eq_of_id {d : Deck} (hd : (d.cards.map (·.id)).Nodup) {c e : Card} (hc : c ∈ d.cards)
    (he : e ∈ d.cards) (h : c.id = e.id) : c = e :=
  List.inj_on_of_nodup_map hd hc he h

end Deck

/-! ## Piles -/

namespace Pile

variable {p : Pile} {c : Card}

/-- A card of the deck may be taken exactly where it is offered, from a pile of such cards. -/
theorem canTake_iff_removable {d : Deck} (hd : (d.cards.map (·.id)).Nodup)
    (hdistinct : (p.cards.map (·.id)).Nodup) (hsub : p.cards ⊆ d.cards) (hc : c ∈ d.cards) :
    p.canTake [c.id] = true ↔ c ∈ p.removable := by
  rw [canTake_single_iff hdistinct]
  constructor
  · rintro ⟨e, he, hid⟩
    obtain ⟨hmem, -⟩ := (mem_removable hdistinct).1 he
    exact Deck.eq_of_id hd (hsub hmem) hc hid ▸ he
  · exact fun hc => ⟨c, hc, rfl⟩

end Pile

/-! ## Boards -/

namespace Board

variable {b : Board} {source target : PileId} {c d : Card}

/-- A card can be transferred just when it may be taken from its pile. -/
theorem isSome_transfer {p : Pile} (hp : b.pile? source = some p) {id : CardId} :
    (b.transfer source target [id]).isSome = true ↔ p.canTake [id] = true := by
  simp only [transfer, hp, Option.bind_eq_bind, Option.bind_some]
  cases p.canTake [id] <;> simp

/-- A card can be removed just when it may be taken from its pile. -/
theorem isSome_remove {p : Pile} (hp : b.pile? source = some p) {id : CardId} :
    (b.remove source [id]).isSome = true ↔ p.canTake [id] = true := by
  simp only [remove, hp, Option.bind_eq_bind, Option.bind_some]
  cases p.canTake [id] <;> simp

/-- Cards of two piles change places exactly when both may be taken. -/
theorem isSome_exchange {p q : Pile} (hp : b.pile? source = some p)
    (hq : b.pile? target = some q) (hne : source ≠ target) {i j : CardId} :
    (b.exchange source target i j).isSome = true ↔
      p.canTake [i] = true ∧ q.canTake [j] = true := by
  simp only [exchange, hp, hq, hne, if_false, Option.bind_eq_bind, Option.bind_some]
  split
  next hrefused =>
    simp only [Bool.or_eq_true, Bool.not_eq_true'] at hrefused
    simp only [Option.isSome_none, Bool.false_eq_true, false_iff, not_and]
    rintro hi hj
    simp [hi, hj] at hrefused
  next htake =>
    simp only [Bool.or_eq_true, Bool.not_eq_true', not_or, Bool.not_eq_false] at htake
    obtain ⟨first, hfirst⟩ := Pile.contains_iff.1 (Pile.canTake_single.1 htake.1).1
    obtain ⟨second, hsecond⟩ := Pile.contains_iff.1 (Pile.canTake_single.1 htake.2).1
    simp [htake, hfirst, hsecond]

end Board

/-! ## Calls -/

/-- A selected pile is one of the game. -/
theorem Table.belongs_select {t : Table} {selector : PileSelector} {id : PileId} {phases : Nat}
    (h : t.select? selector = some id) : (Value.pile id).belongs t phases = true :=
  decide_eq_true (Board.find?_lt h)

/-- A card is accepted whatever the game. -/
theorem Value.belongs_card (t : Table) (phases : Nat) (c : Card) :
    (Value.card c).belongs t phases = true := rfl

namespace Token

variable {t : Table} {context : String} {index : Nat} {supplied : List Value}

/-- A pile that is given stands for itself and takes nothing of what is supplied. -/
theorem resolveFrom_pile {selector : PileSelector} {id : PileId}
    (h : t.select? selector = some id) (tokens : List Token) :
    (resolveFrom t context index supplied (.pile selector :: tokens)).1 =
      ((resolveFrom t context (index + 1) supplied tokens).1.map (.pile id :: ·)) := by
  simp [resolveFrom, resolve, constant, selected, h]

end Token

namespace Judge

variable {j : Judge} {t : Table} {verb : Verb} {tokens : List Token} {supplied : List Value}
  {x y : PileSelector} {source target : PileId}

/-- A call that finds one value of the game for each parameter carries out what these stand for. -/
theorem call_of_values (values : List Value) (op : Operation)
    (haccepts : verb.signature.accepts tokens.length = true)
    (hvalues : (Token.resolveAll t verb.keyword supplied tokens).1 = .ok values)
    (hlength : values.length = verb.signature.arity)
    (hbelongs : ∀ v ∈ values, v.belongs t j.graph.phases.length = true)
    (hop : (Call.mk verb values).operation = .ok op) :
    j.call verb tokens supplied t = .ok (op.run j.ranking t) := by
  have hshape : Token.shape verb verb.keyword values = .ok values := by
    simp only [Token.shape, hlength, Nat.le_refl, decide_true, Bool.or_true, if_true]
    rfl
  have harguments : (Token.arguments t verb.keyword verb supplied tokens).1 = .ok values := by
    simp only [Token.arguments, haccepts, Bool.not_true, Bool.false_eq_true, if_false, hvalues]
    exact hshape
  have hprepare := Operation.prepare_ok.2 ⟨Nat.le_of_eq hlength.symm, hbelongs, hop⟩
  simp only [call, harguments, Operation.dispatch, bind_ok]
  exact ⟨values, rfl, op, hprepare, rfl⟩

/-- To put a card is to move the card of its number, also with the verb for several cards. -/
theorem call_transfer (hx : t.select? x = some source) (hy : t.select? y = some target)
    {kind : Kind} (hverb : verb = .put ∧ kind = .card ∨ verb = .putMultiple)
    (hkind : kind = .card ∨ kind = .cards) (c : Card) :
    j.call verb [.pile x, .pile y, .placeholder kind] [.card c] t =
      .ok (Operation.moved t (t.board.transfer source target [c.id])) := by
  -- The card is an argument as it is, or gathered to a list of one.
  obtain ⟨v, hv, hbelongs, hop, haccepts, harity⟩ : ∃ v : Value,
      (Token.resolveFrom t verb.keyword 2 [.card c] [.placeholder kind]).1 = .ok [v] ∧
        v.belongs t j.graph.phases.length = true ∧
        (Call.mk verb [.pile source, .pile target, v]).operation =
          .ok (.transfer source target [c.id]) ∧
        verb.signature.accepts 3 = true ∧ verb.signature.arity = 3 := by
    rcases hverb with ⟨rfl, rfl⟩ | rfl
    · exact ⟨.card c, rfl, rfl, rfl, rfl, rfl⟩
    · rcases hkind with rfl | rfl
      · exact ⟨.card c, rfl, rfl, rfl, rfl, rfl⟩
      · exact ⟨.cards [c], rfl, rfl, rfl, rfl, rfl⟩
  refine call_of_values _ _ haccepts ?_ (harity ▸ rfl) ?_ hop
  · rw [Token.resolveAll, Token.resolveFrom_pile hx, Token.resolveFrom_pile hy, hv]
    rfl
  · simp [hbelongs, Table.belongs_select hx, Table.belongs_select hy]

/-- A call that removes the card supplied. -/
theorem call_remove (hx : t.select? x = some source) (c : Card) :
    j.call .remove [.pile x, .placeholder .card] [.card c] t =
      .ok (Operation.moved t (t.board.remove source [c.id])) := by
  refine call_of_values [.pile source, .card c] (.remove source c.id) rfl ?_ rfl ?_ rfl
  · rw [Token.resolveAll, Token.resolveFrom_pile hx]
    rfl
  · simp [Value.belongs_card, Table.belongs_select hx]

/-- A call that exchanges the two cards supplied. -/
theorem call_exchange (hx : t.select? x = some source) (hy : t.select? y = some target)
    (c d : Card) :
    j.call .exchange [.pile x, .pile y, .placeholder .card, .placeholder .card]
      [.card c, .card d] t =
      .ok (Operation.moved t (t.board.exchange source target c.id d.id)) := by
  refine call_of_values [.pile source, .pile target, .card c, .card d]
    (.exchange source target c.id d.id) rfl ?_ rfl ?_ rfl
  · rw [Token.resolveAll, Token.resolveFrom_pile hx, Token.resolveFrom_pile hy]
    rfl
  · simp [Value.belongs_card, Table.belongs_select hx, Table.belongs_select hy]

/-- A move answers true exactly when it is not refused. -/
theorem exists_moved {b : Option Board} :
    (∃ t', (Except.ok (Operation.moved t b) : Except RuntimeError _) = .ok (.bool true, t')) ↔
      b.isSome = true := by
  cases b <;> simp [Operation.moved]

end Judge

/-! ## Actions that move cards -/

namespace Action

/-- The action puts or removes one card that is left open, and all its other parameters are
piles that are given. -/
structure MovesOne (a : Action) (kind : Kind) : Prop where
  verb : a.verb = .put ∨ a.verb = .putMultiple ∨ a.verb = .remove
  asks : kind = .card ∨ kind = .cards
  parameters : ∃ piles : List PileSelector, a.parameters = piles.map .pile ++ [.placeholder kind]

/-- The action exchanges two cards that are left open, of two piles that are given. -/
structure Exchanges (a : Action) (x y : PileSelector) : Prop where
  verb : a.verb = .exchange
  parameters : a.parameters = [.pile x, .pile y, .placeholder .card, .placeholder .card]

variable {a : Action} {kind : Kind}

/-- Such an action has two piles if it puts cards, and one if it removes a card. -/
theorem MovesOne.cases (h : a.MovesOne kind) (hadmits : a.verb.Admits a.parameters) :
    (∃ x y, (a.verb = .put ∧ kind = .card ∨ a.verb = .putMultiple) ∧
        a.parameters = [.pile x, .pile y, .placeholder kind]) ∨
      ∃ x, a.verb = .remove ∧ kind = .card ∧ a.parameters = [.pile x, .placeholder .card] := by
  obtain ⟨piles, hparameters⟩ := h.parameters
  have haccepts := hadmits.accepts
  rw [hparameters, List.length_append, List.length_map, List.length_singleton] at haccepts
  -- The last parameter is the open one; a verb for one card does not take several.
  obtain ⟨wanted, hwanted, hkind⟩ := hadmits.satisfies piles.length (.placeholder kind) (by
    rw [hparameters, List.getElem?_append_right (by simp)]
    simp)
  have hone : wanted = .card → kind = .card := by
    rintro rfl
    rcases h.asks with rfl | rfl
    · rfl
    · cases hkind
  rcases h.verb with hverb | hverb | hverb
  · rw [hverb] at haccepts hwanted
    obtain ⟨x, y, rfl⟩ := List.length_eq_two.1 (Nat.succ.inj (beq_iff_eq.1 haccepts))
    obtain rfl := hone (Option.some.inj hwanted).symm
    exact .inl ⟨x, y, .inl ⟨hverb, rfl⟩, hparameters⟩
  · rw [hverb] at haccepts
    have hlength : 3 ≤ piles.length + 1 := of_decide_eq_true haccepts
    match piles, hlength with
    | [x, y], _ => exact .inl ⟨x, y, .inr hverb, hparameters⟩
    | _ :: _ :: z :: rest, _ =>
      -- A third pile would stand where the cards have to.
      obtain ⟨wanted, hwanted, hkind⟩ := hadmits.satisfies 2 (.pile z) (by rw [hparameters]; rfl)
      rw [hverb] at hwanted
      cases hwanted
      cases hkind
  · rw [hverb] at haccepts hwanted
    obtain ⟨x, rfl⟩ := List.length_eq_one_iff.1 (Nat.succ.inj (beq_iff_eq.1 haccepts))
    obtain rfl := hone (Option.some.inj hwanted).symm
    exact .inr ⟨x, hverb, rfl, hparameters⟩

end Action

/-! ## Options -/

namespace Session

variable {s : Session} {offer : Offer} {id : ActionId} {a : Action}

/-- To run the action with the supplied values answers true. -/
def Effective (s : Session) (a : Action) (supplied : List Value) : Prop :=
  ∃ t, s.judge.call a.verb a.parameters supplied s.table = .ok (.bool true, t)

/-- An action on offer has one list of options for each open parameter. -/
theorem options_of_action (hoffer : offer.performable = .action id)
    (ha : s.game.graph.action id = .ok a)
    (haccepts : a.verb.signature.accepts a.parameters.length = true) :
    s.options offer = .ok (a.parameters.zipIdx.filterMap fun (token, index) =>
      match token with
      | .placeholder kind =>
        some ⟨index, kind, s.table.choices s.game.graph.phases.length (s.sourcePile? a index) kind⟩
      | _ => none) := by
  simp only [options, bind_ok]
  refine ⟨some a, ?_, ?_⟩
  · simp only [hoffer, leadsTo, ha]
    rfl
  · exact guard_ok.2 ⟨by simp [haccepts], rfl⟩

/-- The options for a card of a given pile are its cards that may be taken. -/
theorem choices_of_pile {t : Table} {phases : Nat} {source : PileId} {p : Pile}
    (hp : t.board.pile? source = some p) {kind : Kind} (hkind : kind = .card ∨ kind = .cards) :
    t.choices phases (some source) kind = p.removable.map .card := by
  rcases hkind with rfl | rfl <;> simp [Table.choices, Table.removableFrom, hp]

/-- The pile that is given is the source of the card. -/
theorem sourcePile?_eq (index : Nat) {place : Nat} {parameter : Parameter}
    {selector : PileSelector} {source : PileId}
    (hparameter : a.verb.signature.parameterAt? index = some parameter)
    (hplace : parameter.source = some place) (htoken : a.parameters[place]? = some (.pile selector))
    (hselect : s.table.select? selector = some source) : s.sourcePile? a index = some source := by
  simp [sourcePile?, hparameter, hplace, htoken, Token.isPlaceholder, Token.constant,
    Token.selected, hselect]

/-! ### Piles in play -/

variable {g : Game} {count : Nat}

/-- A pile of a game being played holds cards of the deck, no two of one number. -/
theorem InPlay.pile (h : s.InPlay g count) (hd : (g.deck.cards.map (·.id)).Nodup)
    {source : PileId} {p : Pile} (hp : s.table.board.pile? source = some p) :
    p.cards ⊆ g.deck.cards ∧ (p.cards.map (·.id)).Nodup := by
  have hle : (p.cards : Multiset Card) ≤ g.deck.cards := by
    rw [← Board.cardsAt_of_pile? hp]
    exact h.cardsAt_le source
  exact ⟨Multiset.subset_of_le hle, Multiset.nodup_of_le (Multiset.map_le_map hle) hd⟩

/-- So a card of the deck may be taken from it exactly where it is among the options. -/
theorem InPlay.mem_options (h : s.InPlay g count) (hd : (g.deck.cards.map (·.id)).Nodup)
    {source : PileId} {p : Pile} (hp : s.table.board.pile? source = some p) {v : Value} :
    v ∈ p.removable.map .card ↔
      ∃ c ∈ g.deck.cards, v = .card c ∧ p.canTake [c.id] = true := by
  obtain ⟨hsub, hdistinct⟩ := h.pile hd hp
  rw [List.mem_map]
  constructor
  · rintro ⟨c, hc, rfl⟩
    have hmem := hsub ((Pile.mem_removable hdistinct).1 hc).1
    exact ⟨c, hmem, rfl, (Pile.canTake_iff_removable hd hdistinct hsub hmem).2 hc⟩
  · rintro ⟨c, hc, rfl, htake⟩
    exact ⟨c, (Pile.canTake_iff_removable hd hdistinct hsub hc).1 htake, rfl⟩

/-- No card is listed twice among those that may be taken from a pile. -/
theorem InPlay.nodup_options (h : s.InPlay g count) (hd : (g.deck.cards.map (·.id)).Nodup)
    {source : PileId} {p : Pile} (hp : s.table.board.pile? source = some p) :
    (p.removable.map Value.card).Nodup :=
  (Pile.nodup_removable (List.Nodup.of_map _ (h.pile hd hp).2)).map fun _ _ heq => by
    cases heq
    rfl

/-! ### One card -/

/-- The options for a card are those with which the action answers true, if they are those of the
pile that it takes cards from. -/
theorem InPlay.options_one (h : s.InPlay g count) (hd : (g.deck.cards.map (·.id)).Nodup)
    {source : PileId} {p : Pile} (hp : s.table.board.pile? source = some p) (index : Nat)
    {kind : Kind} (hopen : a.parameters[index]? = some (.placeholder kind))
    (hoptions : s.options offer = .ok [⟨index, kind, p.removable.map .card⟩])
    (heffective : ∀ c, s.Effective a [.card c] ↔ p.canTake [c.id] = true) :
    ∃ index values, a.parameters[index]? = some (.placeholder kind) ∧
      s.options offer = .ok [⟨index, kind, values⟩] ∧ values.Nodup ∧
      ∀ v, v ∈ values ↔ ∃ c ∈ g.deck.cards, v = .card c ∧ s.Effective a [v] := by
  refine ⟨index, _, hopen, hoptions, h.nodup_options hd hp, fun v => ?_⟩
  rw [h.mem_options hd hp]
  refine exists_congr fun c => and_congr_right fun _ => and_congr_right ?_
  rintro rfl
  exact (heffective c).symm

/-- A given pile of an action of the game is on the board. -/
theorem InPlay.exists_pile (h : s.InPlay g count) (hg : g.WellFormed)
    (ha : g.graph.action id = .ok a) (selector : PileSelector)
    (hselector : .pile selector ∈ a.parameters) :
    ∃ source p, s.table.select? selector = some source ∧ s.table.board.pile? source = some p := by
  have hmem : a ∈ g.graph.actions := List.mem_of_getElem? (orFail_eq_ok.1 ha)
  have hclosed := hg.closed.tokens (.pile selector)
    (List.mem_append_left _ (List.mem_flatMap.2 ⟨a, hmem, hselector⟩))
  obtain ⟨source, hsource, hlt⟩ := h.table.toSetFor.exists_select? hclosed
  obtain ⟨p, hp⟩ := Board.exists_pile? hlt
  exact ⟨source, p, hsource, hp⟩

/-- For an action that moves one card, the values listed are those with which it takes effect. -/
theorem InPlay.options_movesOne (h : s.InPlay g count) (hg : g.WellFormed)
    (hd : (g.deck.cards.map (·.id)).Nodup) (hoffer : offer.performable = .action id)
    (ha : g.graph.action id = .ok a) (hadmits : a.verb.Admits a.parameters) {kind : Kind}
    (hmoves : a.MovesOne kind) :
    ∃ index values, a.parameters[index]? = some (.placeholder kind) ∧
      s.options offer = .ok [⟨index, kind, values⟩] ∧ values.Nodup ∧
      ∀ v, v ∈ values ↔ ∃ c ∈ g.deck.cards, v = .card c ∧ s.Effective a [v] := by
  have hoptions := options_of_action (s := s) hoffer (h.game.symm ▸ ha) hadmits.accepts
  rcases hmoves.cases hadmits with ⟨x, y, hverb, hparameters⟩ | ⟨x, hverb, rfl, hparameters⟩
  · obtain ⟨source, p, hx, hp⟩ := h.exists_pile hg ha x (by simp [hparameters])
    obtain ⟨target, -, hy, -⟩ := h.exists_pile hg ha y (by simp [hparameters])
    have hplace : ∃ wanted, a.verb.signature.parameterAt? 2 = some (Verb.chosenFrom wanted 0) := by
      rcases hverb with ⟨hverb, -⟩ | hverb <;> exact ⟨_, by rw [hverb]; rfl⟩
    refine h.options_one hd hp 2 (by rw [hparameters]; rfl) ?_ fun c => ?_
    · rw [hoptions, hparameters, ← choices_of_pile hp hmoves.asks,
        ← sourcePile?_eq 2 hplace.choose_spec rfl (by rw [hparameters]; rfl) hx]
      rfl
    · rw [Effective, hparameters, Judge.call_transfer hx hy hverb hmoves.asks, Judge.exists_moved,
        Board.isSome_transfer hp]
  · obtain ⟨source, p, hx, hp⟩ := h.exists_pile hg ha x (by simp [hparameters])
    have hplace : a.verb.signature.parameterAt? 1 = some (Verb.chosenFrom .card 0) := by
      rw [hverb]
      rfl
    refine h.options_one hd hp 1 (by rw [hparameters]; rfl) ?_ fun c => ?_
    · rw [hoptions, hparameters, ← choices_of_pile hp hmoves.asks,
        ← sourcePile?_eq 1 hplace rfl (by rw [hparameters]; rfl) hx]
      rfl
    · rw [Effective, hverb, hparameters, Judge.call_remove hx, Judge.exists_moved,
        Board.isSome_remove hp]

/-! ### Two cards -/

/-- The options for two cards that are exchanged are the pairs with which the action answers
true. -/
theorem InPlay.options_exchanges (h : s.InPlay g count) (hg : g.WellFormed)
    (hd : (g.deck.cards.map (·.id)).Nodup) (hoffer : offer.performable = .action id)
    (ha : g.graph.action id = .ok a) {x y : PileSelector} (hexchanges : a.Exchanges x y)
    (hne : s.table.select? x ≠ s.table.select? y) :
    ∃ first second, s.options offer = .ok [⟨2, .card, first⟩, ⟨3, .card, second⟩] ∧
      first.Nodup ∧ second.Nodup ∧
      ∀ v w, v ∈ first ∧ w ∈ second ↔
        ∃ c ∈ g.deck.cards, ∃ d ∈ g.deck.cards, v = .card c ∧ w = .card d ∧
          s.Effective a [v, w] := by
  obtain ⟨hverb, hparameters⟩ := hexchanges
  have hoptions := options_of_action (s := s) hoffer (h.game.symm ▸ ha) (by
    rw [hverb, hparameters]
    rfl)
  obtain ⟨source, p, hx, hp⟩ := h.exists_pile hg ha x (by simp [hparameters])
  obtain ⟨target, q, hy, hq⟩ := h.exists_pile hg ha y (by simp [hparameters])
  have hfirst := sourcePile?_eq (s := s) (a := a) 2 (by rw [hverb]; rfl) rfl
    (by rw [hparameters]; rfl) hx
  have hsecond := sourcePile?_eq (s := s) (a := a) 3 (by rw [hverb]; rfl) rfl
    (by rw [hparameters]; rfl) hy
  have hpiles : source ≠ target := by
    rintro rfl
    exact hne (hx.trans hy.symm)
  refine ⟨p.removable.map .card, q.removable.map .card, ?_, h.nodup_options hd hp,
    h.nodup_options hd hq, fun v w => ?_⟩
  · rw [hoptions, hparameters, ← choices_of_pile hp (.inl rfl), ← choices_of_pile hq (.inl rfl),
      ← hfirst, ← hsecond]
    rfl
  · have heffective : ∀ c d, s.Effective a [.card c, .card d] ↔
        p.canTake [c.id] = true ∧ q.canTake [d.id] = true := fun c d => by
      rw [Effective, hverb, hparameters, Judge.call_exchange hx hy, Judge.exists_moved,
        Board.isSome_exchange hp hq hpiles]
    rw [h.mem_options hd hp, h.mem_options hd hq]
    constructor
    · rintro ⟨⟨c, hc, rfl, htakeC⟩, d, hd, rfl, htakeD⟩
      exact ⟨c, hc, d, hd, rfl, rfl, (heffective c d).2 ⟨htakeC, htakeD⟩⟩
    · rintro ⟨c, hc, d, hd, rfl, rfl, heff⟩
      obtain ⟨htakeC, htakeD⟩ := (heffective c d).1 heff
      exact ⟨⟨c, hc, rfl, htakeC⟩, d, hd, rfl, htakeD⟩

/-! ### What is offered can be moved -/

/-- However a compiled game is played, what is offered is what can be moved. For an action that
puts or removes one card of a given pile the options are the cards of the deck with which the action
answers true, each of them once; for one that exchanges cards of two different piles the pairs of
options are the pairs of cards with which it does. -/
theorem options_are_movable {rules deck board : Document} {brief : Option Document}
    {names : List String} {config : Config} {s₀ : Session}
    (hgame : Game.ofDocuments rules deck board brief = .ok g)
    (hs₀ : create g names config = .ok s₀) (requests : List Request)
    (hoffer : offer.performable = .action id) (ha : g.graph.action id = .ok a) :
    let s := s₀.answerAll requests
    (∀ kind, a.MovesOne kind →
      ∃ index values, a.parameters[index]? = some (.placeholder kind) ∧
        s.options offer = .ok [⟨index, kind, values⟩] ∧ values.Nodup ∧
        ∀ v, v ∈ values ↔ ∃ c ∈ g.deck.cards, v = .card c ∧ s.Effective a [v]) ∧
    ∀ x y, a.Exchanges x y → s.table.select? x ≠ s.table.select? y →
      ∃ first second, s.options offer = .ok [⟨2, .card, first⟩, ⟨3, .card, second⟩] ∧
        first.Nodup ∧ second.Nodup ∧
        ∀ v w, v ∈ first ∧ w ∈ second ↔
          ∃ c ∈ g.deck.cards, ∃ d ∈ g.deck.cards, v = .card c ∧ w = .card d ∧
            s.Effective a [v, w] := by
  have hg := Game.wellFormed_of_ofDocuments hgame
  have hs := (inPlay_create hg hs₀).answerAll hg requests
  simp only [Game.ofDocuments, bind_ok, pure_ok] at hgame
  obtain ⟨_, hdeck, _, -, _, -, _, -, _, -, _, -, graph, hgraph, _, -, rfl⟩ := hgame
  have hd := Deck.number_distinct hdeck
  have hmem : a ∈ graph.actions := List.mem_of_getElem? (orFail_eq_ok.1 ha)
  have hadmits := Graph.admits_of_compile hgraph (.inl ⟨a, hmem, rfl, rfl⟩)
  exact ⟨fun kind hmoves => hs.options_movesOne hg hd hoffer ha hadmits hmoves,
    fun x y hexchanges hne => hs.options_exchanges hg hd hoffer ha hexchanges hne⟩

/-! ## Two players trade -/

/-- The rules of a game in which players put cards into a pool and take others for theirs. -/
def tradingRules : Document where
  kind := .rules
  name := "trading"
  lines := [
    "players 2",
    "deal", "player-piles hand 1", "common-piles pool all", "deal-end",
    "action give", "put pile.hand pile.pool card",
    "action trade", "exchange pile.hand pile.pool card card", "end-action",
    "phase turn", "allow", "allow give", "allow trade", "end-allow", "end-phase"]

/-- The board of the game: a hand for each player and the pool. -/
def tradingBoard : Document where
  kind := .board
  name := "trading"
  lines := ["cardpile hand", "owner player", "cardpile pool", "removal top"]

/-- Two players sit down at the game of trading. -/
def trading : Compiled (Game × Session) := do
  let g ← Game.ofDocuments tradingRules drawingDeck tradingBoard none
  let s ← create g ["ann", "bob"] { seed := 1 }
  return (g, s)

/-- To put a card into the pool. -/
def give : Action where
  name := "give"
  description := none
  verb := .put
  parameters := [.pile ⟨⟨0⟩, .current⟩, .pile ⟨⟨1⟩, .current⟩, .placeholder .card]

/-- To take a card from the pool for one of the hand. -/
def trade : Action where
  name := "trade"
  description := none
  verb := .exchange
  parameters :=
    [.pile ⟨⟨0⟩, .current⟩, .pile ⟨⟨1⟩, .current⟩, .placeholder .card, .placeholder .card]

/-- Once the cards are dealt, they may give and trade what they are offered, and nothing else. -/
theorem trading_options_are_movable :
    ∃ g s₀, Game.ofDocuments tradingRules drawingDeck tradingBoard none = .ok g ∧
      create g ["ann", "bob"] { seed := 1 } = .ok s₀ ∧
      let s := s₀.answerAll [.start]
      (∃ index values, s.options ⟨⟨0⟩, 0, .action ⟨0⟩⟩ = .ok [⟨index, .card, values⟩] ∧
        ∀ v, v ∈ values ↔ ∃ c ∈ g.deck.cards, v = .card c ∧ s.Effective give [v]) ∧
      ∃ first second,
        s.options ⟨⟨0⟩, 1, .action ⟨1⟩⟩ = .ok [⟨2, .card, first⟩, ⟨3, .card, second⟩] ∧
        ∀ v w, v ∈ first ∧ w ∈ second ↔
          ∃ c ∈ g.deck.cards, ∃ d ∈ g.deck.cards, v = .card c ∧ w = .card d ∧
            s.Effective trade [v, w] := by
  have hcompiled : trading.map (fun (x : Game × Session) => (x.1.graph.actions,
      (Seat.all 2).all fun seat => (Board.ofLayout x.1.layout 2).find? ⟨0⟩ seat !=
        (Board.ofLayout x.1.layout 2).find? ⟨1⟩ seat)) = .ok ([give, trade], true) := by
    decide +kernel
  obtain ⟨⟨g, s₀⟩, h, heq⟩ := map_ok.1 hcompiled
  obtain ⟨hactions, hpiles⟩ := Prod.mk.inj heq
  simp only [trading, bind_ok, pure_ok] at h
  obtain ⟨_, hgame, _, hs₀, heq⟩ := h
  cases heq
  have hgive : g.graph.action ⟨0⟩ = .ok give := by rw [Graph.action, hactions]; rfl
  have htrade : g.graph.action ⟨1⟩ = .ok trade := by rw [Graph.action, hactions]; rfl
  -- Whoever's turn it is, their hand is not the pool.
  have hg := Game.wellFormed_of_ofDocuments hgame
  have htable := ((inPlay_create hg hs₀).answerAll hg [.start]).table
  have hne : (s₀.answerAll [.start]).table.select? ⟨⟨0⟩, .current⟩ ≠
      (s₀.answerAll [.start]).table.select? ⟨⟨1⟩, .current⟩ := by
    have hlt := htable.seated ▸ htable.current
    have hframe : (s₀.answerAll [.start]).table.board.clear =
        (Board.ofLayout g.layout 2).clear := by
      rw [htable.frame, htable.seated, Board.clear_ofLayout]
      rfl
    have hseat : (s₀.answerAll [.start]).table.current ∈ Seat.all 2 :=
      Seat.mem_all.2 ⟨hlt, Nat.lt_trans hlt (by decide)⟩
    simpa [Table.select?, Table.ownerSeat, Board.find?_congr hframe] using
      List.all_eq_true.1 hpiles _ hseat
  have hfirst : (⟨⟨0⟩, 0, .action ⟨0⟩⟩ : Offer).performable = .action ⟨0⟩ := rfl
  have hsecond : (⟨⟨0⟩, 1, .action ⟨1⟩⟩ : Offer).performable = .action ⟨1⟩ := rfl
  obtain ⟨index, values, -, hoptions, -, hvalues⟩ :=
    (options_are_movable hgame hs₀ [.start] hfirst hgive).1 .card
      ⟨.inl rfl, .inl rfl, [⟨⟨0⟩, .current⟩, ⟨⟨1⟩, .current⟩], rfl⟩
  obtain ⟨first, second, hpairs, -, -, hmovable⟩ :=
    (options_are_movable hgame hs₀ [.start] hsecond htrade).2 _ _
      ⟨rfl, rfl⟩ hne
  exact ⟨g, s₀, hgame, hs₀, ⟨index, values, hoptions, hvalues⟩, first, second, hpairs, hmovable⟩

end Session

end HouseRules
