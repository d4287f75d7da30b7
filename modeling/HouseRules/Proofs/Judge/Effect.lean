import HouseRules.Proofs.Board.Moves
import HouseRules.Proofs.Judge

/-!
# What calls do

A call of a verb is resolved, checked and carried out; where the first two succeed, its effect is
that of the operation (`Judge.effect_of_operation`). This module says so of single verbs, each
written with the parameters that rule files give it: the piles that a table selects, the topmost
card of a pile, and a card that the caller has to supply. What is supplied in its place makes the
call fail where it is no card.

Looked up in the graph, a condition is the chain of its statements (`Judge.condition_eq`).
-/

namespace HouseRules

/-! ## Parameters -/

/-- A parameter stands for a value, whoever asks. -/
def Token.Stands (t : Table) (token : Token) (value : Value) : Prop :=
  ∀ context, Token.constant t context token = .ok value

namespace Token

variable {t : Table} {context : String} {i : Nat} {supplied : List Value} {tokens : List Token}

/-- The selector of a pile stands for the pile that it selects. -/
theorem Stands.pile {selector : PileSelector} {id : PileId} (h : t.select? selector = some id) :
    (Token.pile selector).Stands t (.pile id) := fun _ =>
  bind_ok.2 ⟨id, orFail_eq_ok.2 h, rfl⟩

/-- The top of a pile stands for its topmost card, if there is one. -/
theorem Stands.top {selector : PileSelector} {id : PileId} {p : Pile} {card : Card}
    (h : t.select? selector = some id) (hp : t.board.pile? id = some p)
    (hcard : p.top? = some card) : (Token.top selector).Stands t (.card card) := fun _ => by
  refine bind_ok.2 ⟨p, bind_ok.2 ⟨id, orFail_eq_ok.2 h, orFail_eq_ok.2 hp⟩, ?_⟩
  exact bind_ok.2 ⟨card, orFail_eq_ok.2 hcard, rfl⟩

/-- A parameter that stands for a value takes none of those supplied. -/
theorem resolveFrom_cons {token : Token} {value : Value} (h : token.Stands t value) :
    resolveFrom t context i supplied (token :: tokens) =
      ((resolveFrom t context (i + 1) supplied tokens).1.map (value :: ·),
        (resolveFrom t context (i + 1) supplied tokens).2) := by
  have hresolve : resolve t context i supplied token = (.ok value, supplied) := by
    have hconstant := h context
    cases token with
    | placeholder kind => cases hconstant
    | _ => exact congrArg (·, supplied) hconstant
  rw [resolveFrom, hresolve]

/-- An open parameter for a card takes one. -/
theorem resolveFrom_card (card : Card) :
    resolveFrom t context i (.card card :: supplied) (.placeholder .card :: tokens) =
      ((resolveFrom t context (i + 1) supplied tokens).1.map (.card card :: ·),
        (resolveFrom t context (i + 1) supplied tokens).2) := rfl

/-- It takes nothing else. -/
theorem resolveFrom_noCard (h : ∀ card rest, supplied ≠ .card card :: rest) :
    ∃ e, (resolveFrom t context i supplied (.placeholder .card :: tokens)).1 = .error e := by
  unfold resolveFrom
  cases supplied with
  | nil => exact ⟨_, rfl⟩
  | cons value rest =>
    cases value with
    | card card => exact absurd rfl (h card rest)
    | _ => exact ⟨_, rfl⟩

end Token

namespace Judge

open Answer (andThen)
open Token (Stands resolveFrom_cons resolveFrom_card)
open Operation (moved)

variable {j : Judge} {t : Table}

/-! ## Calls -/

/-- A call that is resolved and passes its check has the effect of its operation. -/
theorem effect_of_operation {verb : Verb} {parameters : List Token} {supplied values : List Value}
    {op : Operation} (haccepts : verb.signature.accepts parameters.length = true)
    (hresolve : (Token.resolveAll t verb.keyword supplied parameters).1.bind
      (Token.shape verb verb.keyword) = .ok values)
    (hprepare : Operation.prepare ⟨verb, values⟩ t j.graph.phases.length = .ok op) :
    j.effect verb parameters supplied t =
      (.ok (op.run j.ranking t).1.tookEffect, (op.run j.ranking t).2) := by
  have hcall : j.call verb parameters supplied t = .ok (op.run j.ranking t) := by
    refine bind_ok.2 ⟨values, ?_, bind_ok.2 ⟨op, hprepare, rfl⟩⟩
    rw [Token.arguments, haccepts]
    exact hresolve
  rw [effect, hcall]

/-- Where a parameter stands for nothing, the verb fails and leaves the table as it is. -/
theorem effect_of_error {verb : Verb} {parameters : List Token} {supplied : List Value}
    {e : RuntimeError} (haccepts : verb.signature.accepts parameters.length = true)
    (hresolve : (Token.resolveAll t verb.keyword supplied parameters).1 = .error e) :
    j.effect verb parameters supplied t = (.error e, t) := by
  have hcall : j.call verb parameters supplied t = .error e := by
    refine bind_error.2 (.inl ?_)
    rw [Token.arguments, haccepts]
    simp only [Bool.not_true, Bool.false_eq_true, if_false, hresolve]
    rfl
  rw [effect, hcall]

variable {a b : PileSelector} {source target : PileId}

/-- Moves the topmost card. -/
theorem effect_putTop (ha : t.select? a = some source) (hb : t.select? b = some target)
    (supplied : List Value) :
    j.effect .putTop [.pile a, .pile b] supplied t =
      (.ok (moved t (t.board.transferTop source target)).1.tookEffect,
        (moved t (t.board.transferTop source target)).2) := by
  have hprepare : Operation.prepare ⟨.putTop, [.pile source, .pile target]⟩ t
      j.graph.phases.length = .ok (.transferTop source target) := by
    refine Operation.prepare_ok.2 ⟨Nat.le_refl 2, ?_, rfl⟩
    simp [Value.belongs, Board.find?_lt ha, Board.find?_lt hb]
  refine effect_of_operation rfl ?_ hprepare
  rw [Token.resolveAll, resolveFrom_cons (.pile ha), resolveFrom_cons (.pile hb)]
  rfl

/-- Moves the card of the supplied number. -/
theorem effect_put (ha : t.select? a = some source) (hb : t.select? b = some target) (c : Card)
    (rest : List Value) :
    j.effect .put [.pile a, .pile b, .placeholder .card] (.card c :: rest) t =
      (.ok (moved t (t.board.transfer source target [c.id])).1.tookEffect,
        (moved t (t.board.transfer source target [c.id])).2) := by
  have hprepare : Operation.prepare ⟨.put, [.pile source, .pile target, .card c]⟩ t
      j.graph.phases.length = .ok (.transfer source target [c.id]) := by
    refine Operation.prepare_ok.2 ⟨Nat.le_refl 3, ?_, rfl⟩
    simp [Value.belongs, Board.find?_lt ha, Board.find?_lt hb]
  refine effect_of_operation rfl ?_ hprepare
  rw [Token.resolveAll, resolveFrom_cons (.pile ha), resolveFrom_cons (.pile hb), resolveFrom_card]
  rfl

/-- The size of a pile is nought exactly if no card lies on it. -/
theorem sizeOf_eq_zero (t : Table) (id : PileId) :
    (Operation.sizeOf t id == 0) = (t.board.cardsAt id).isEmpty := by
  unfold Operation.sizeOf Board.cardsAt
  cases t.board.pile? id with
  | none => rfl
  | some p => cases hp : p.cards <;> simp [Pile.size, hp]

/-- Asks whether a pile has no cards. -/
theorem effect_checkIfEmpty (ha : t.select? a = some source) (supplied : List Value) :
    j.effect .checkIfEmpty [.pile a] supplied t = (.ok (t.board.cardsAt source).isEmpty, t) := by
  have hprepare : Operation.prepare ⟨.checkIfEmpty, [.pile source]⟩ t j.graph.phases.length =
      .ok (.allEmpty [source]) :=
    Operation.prepare_ok.2 ⟨Nat.le_refl 1, by simp [Value.belongs, Board.find?_lt ha], rfl⟩
  have hresolve : (Token.resolveAll t Verb.checkIfEmpty.keyword supplied [.pile a]).1.bind
      (Token.shape .checkIfEmpty Verb.checkIfEmpty.keyword) = .ok [.pile source] := by
    rw [Token.resolveAll, resolveFrom_cons (.pile ha)]
    rfl
  rw [effect_of_operation rfl hresolve hprepare, ← sizeOf_eq_zero]
  simp [Operation.run, Outcome.tookEffect]

/-- Makes a player win. -/
theorem effect_playerWin {who : PlayerRef} (hseat : (t.seatOf who).index < t.count)
    (supplied : List Value) :
    j.effect .playerWin [.player who] supplied t =
      (.ok true, t.modifyPlayer (t.seatOf who) fun p => { p with status := .won }) := by
  have hprepare : Operation.prepare ⟨.playerWin, [.player (t.seatOf who)]⟩ t
      j.graph.phases.length = .ok (.setStatus (t.seatOf who) .won) :=
    Operation.prepare_ok.2 ⟨Nat.le_refl 1, by simpa [Value.belongs] using hseat, rfl⟩
  exact effect_of_operation rfl rfl hprepare

/-! ## Comparing a supplied card -/

variable {token : Token} {card : Card}

/-- Compares a card with a supplied one. -/
theorem effect_like (respect : Likeness) (hcard : token.Stands t (.card card)) (c : Card)
    (rest : List Value) :
    j.effect respect.verb [token, .placeholder .card] (.card c :: rest) t =
      (.ok (respect.holds j.ranking card c), t) := by
  have hprepare : Operation.prepare ⟨respect.verb, [.cards [card, c]]⟩ t j.graph.phases.length =
      .ok (.allLike respect [card, c]) := by
    refine Operation.prepare_ok.2 ⟨?_, by simp [Value.belongs], ?_⟩
    · cases respect <;> exact Nat.le_refl 1
    · cases respect <;> rfl
  have hresolve : (Token.resolveAll t respect.verb.keyword (.card c :: rest)
      [token, .placeholder .card]).1.bind (Token.shape respect.verb respect.verb.keyword) =
        .ok [.cards [card, c]] := by
    rw [Token.resolveAll, resolveFrom_cons hcard, resolveFrom_card]
    cases respect <;> rfl
  rw [effect_of_operation (by cases respect <;> rfl) hresolve hprepare]
  simp [Operation.run, Operation.agree, Outcome.tookEffect]

/-- There is nothing to compare with where no card is supplied. -/
theorem effect_like_error (respect : Likeness) (hcard : token.Stands t (.card card))
    {supplied : List Value} (h : ∀ c rest, supplied ≠ .card c :: rest) :
    ∃ e, j.effect respect.verb [token, .placeholder .card] supplied t = (.error e, t) := by
  obtain ⟨e, he⟩ : ∃ e, (Token.resolveFrom t respect.verb.keyword 1 supplied
      [.placeholder .card]).1 = .error e := Token.resolveFrom_noCard h
  refine ⟨e, effect_of_error (by cases respect <;> rfl) ?_⟩
  rw [Token.resolveAll, resolveFrom_cons hcard, he]
  rfl

/-- Asks whether a supplied card is strictly higher. -/
theorem effect_checkRank (hcard : token.Stands t (.card card)) (c : Card) (rest : List Value) :
    j.effect .checkRank [.placeholder .card, token] (.card c :: rest) t =
      (.ok (j.ranking.outranks c card), t) := by
  have hprepare : Operation.prepare ⟨.checkRank, [.card c, .card card]⟩ t j.graph.phases.length =
      .ok (.outranks c card) :=
    Operation.prepare_ok.2 ⟨Nat.le_refl 2, by simp [Value.belongs], rfl⟩
  refine effect_of_operation rfl ?_ hprepare
  rw [Token.resolveAll, resolveFrom_card, resolveFrom_cons hcard]
  rfl

/-! ## Conditions -/

/-- A condition, with no other under way, is the chain of its statements. -/
theorem condition_eq {id : ConditionId} {c : Condition}
    (hc : j.graph.conditions[id.index]? = some c) (supplied : List Value) :
    ∃ ask, (j.condition .empty id supplied t).1 =
      andThen (chain (j.statement ask c.name supplied) c.statements t) fun value t =>
        (.ok (value != c.inverted), t) := by
  have henter : Guard.empty.enter j.graph id = .ok ⟨[id]⟩ := rfl
  rw [condition]
  split
  next e he => cases he.symm.trans henter
  next inner hinner =>
    split
    next hnone => cases hnone.symm.trans hc
    next c' hc' =>
      obtain rfl := Option.some.inj (hc.symm.trans hc')
      exact ⟨_, rfl⟩

/-- Whether a pile is empty, asked by a condition of that one statement. -/
theorem holds_checkIfEmpty {r : ConditionRef} {name : String}
    (hc : j.graph.conditions[r.id.index]? =
      some ⟨name, [⟨false, .call .checkIfEmpty [.pile a], none⟩], false⟩)
    (ha : t.select? a = some source) (supplied : List Value) :
    j.holds r supplied t = (.ok ((t.board.cardsAt source).isEmpty != r.negated), t) := by
  obtain ⟨ask, hask⟩ := j.condition_eq (t := t) hc supplied
  rw [holds, hask]
  simp only [chain, chainFrom, statement, effect_checkIfEmpty ha, Answer.andThen_ok,
    Bool.bne_false]

/-! ## Actions -/

/-- A controlled action that is to be done once, and does nothing unless its condition holds. -/
theorem run_controlled {id : ControlledId} {name : String} {text : Option String}
    {r : ConditionRef} {actionId : ActionId} {a : Action}
    (hc : j.graph.controlledAction id = .ok ⟨name, text, some r, .action actionId, none, .once⟩)
    (ha : j.graph.action actionId = .ok a) (supplied : List Value) (t : Table) :
    j.run (.controlled id) supplied t =
      andThen (j.holds r supplied t) fun value t =>
        if value then j.effect a.verb a.parameters supplied t else (.ok false, t) := by
  have hpos : 0 < j.graph.controlled.length :=
    List.length_pos_of_mem (List.mem_of_getElem? (orFail_eq_ok.1 hc))
  obtain ⟨levels, hlevels⟩ := Nat.exists_eq_succ_of_ne_zero (Nat.ne_of_gt hpos)
  have haction : ∀ t, j.runWithin supplied levels (.action actionId) t =
      j.effect a.verb a.parameters supplied t := fun t => by
    cases levels <;> simp only [runWithin, Answer.ofExcept, ha, Answer.andThen_ok]
  rw [run, hlevels, runWithin, hc]
  simp only [Answer.ofExcept, Answer.andThen_ok, controlled, branch, haction]
  congr 1
  funext value t
  cases value <;> rfl

end Judge

end HouseRules
