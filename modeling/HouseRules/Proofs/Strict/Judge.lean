import HouseRules.Proofs.Judge
import HouseRules.Proofs.Strict.Operation
import HouseRules.Session

/-!
# Judging and playing read strictly

Everything a judge does comes down to calls of verbs, and calls find all that they take at a table
where somebody's turn it is. What they leave is such a table again, so conditions, controlled
actions and the settling of play find all that they take as well, one call after the other, however
they are nested and whether they end in a result or in an error.

`Answer.Met` says both of a strict reading: it comes to the answer of the plain function, and the
table of the answer has the property that the next step relies on. The lemmas follow the recursion
of the judge, as those on what a judge keeps do.
-/

namespace HouseRules

/-! ## Answers -/

namespace Answer

variable {α β : Type}

/-- `Answer.andThen`, where both halves are read strictly. -/
def andThenStrict (r : Option (Answer α)) (next : α → Table → Option (Answer β)) :
    Option (Answer β) := do
  match ← r with
  | (.ok a, t) => next a t
  | (.error e, t) => return (.error e, t)

/-- A strict reading comes to an answer, and its table has a property. -/
structure Met (p : Table → Prop) (x : Option (Answer α)) (r : Answer α) : Prop where
  eq : x = some r
  keeps : p r.2

variable {p : Table → Prop}

/-- An answer that is given outright is met. -/
theorem Met.done {r : Answer α} (h : p r.2) : Met p (some r) r := ⟨rfl, h⟩

/-- What is met in both halves is met in the whole. -/
theorem Met.andThen {x : Option (Answer α)} {r : Answer α}
    {f : α → Table → Option (Answer β)} {g : α → Table → Answer β} (hx : Met p x r)
    (h : ∀ a t, p t → Met p (f a t) (g a t)) :
    Met p (andThenStrict x f) (Answer.andThen r g) := by
  obtain ⟨rfl, hr⟩ := hx
  obtain ⟨e | a, t⟩ := r
  · exact .done hr
  · exact h a t hr

end Answer

open Answer (andThenStrict Met)

/-- `Table.position`, read strictly: the player whose turn it is is taken by their seat. -/
def Table.positionStrict (t : Table) : Option Position := do
  let player ← t.player? t.current
  return ⟨t.current, player.phase⟩

/-- Where the player whose turn it is is at the table, so is the position. -/
theorem Table.positionStrict_eq {t : Table} (h : t.current.index < t.count) :
    t.positionStrict = some t.position := by
  obtain ⟨player, hplayer⟩ := exists_player? h
  rw [positionStrict, position, phaseOf?, hplayer]
  rfl

namespace Judge

/-! ## The judge read strictly -/

/-- `Judge.call`, read strictly. -/
def callStrict (j : Judge) (verb : Verb) (parameters : List Token) (supplied : List Value)
    (t : Table) : Strict RuntimeError (Outcome × Table) := do
  let values ← Token.argumentsStrict t verb.keyword verb supplied parameters
  Operation.dispatchStrict ⟨verb, values⟩ j.ranking j.graph.phases.length t

/-- `Judge.effect`, read strictly. -/
def effectStrict (j : Judge) (verb : Verb) (parameters : List Token) (supplied : List Value)
    (t : Table) : Option (Answer Bool) := do
  match ← (j.callStrict verb parameters supplied t).run with
  | .ok (outcome, t) => return (.ok outcome.tookEffect, t)
  | .error e => return (.error e, t)

/-- `Judge.chainFrom`, read strictly. -/
def chainFromStrict (ask : Statement → Table → Option (Answer Bool)) (sofar : Bool)
    (pending : Connective) : List Statement → Table → Option (Answer Bool)
  | [], t => some (.ok sofar, t)
  | s :: rest, t =>
    if pending.decides sofar then some (.ok sofar, t)
    else andThenStrict (ask s t) fun next t =>
      chainFromStrict ask (pending.combine sofar next) (s.connective.getD .and) rest t

/-- `Judge.chain`, read strictly. -/
def chainStrict (ask : Statement → Table → Option (Answer Bool)) :
    List Statement → Table → Option (Answer Bool)
  | [], t => some (.ok true, t)
  | s :: rest, t =>
    andThenStrict (ask s t) fun first t =>
      chainFromStrict ask first (s.connective.getD .and) rest t

/-- `Judge.statement`, read strictly. -/
def statementStrict (j : Judge) (ask : ConditionId → List Value → Table → Option (Answer Bool))
    (condition : String) (supplied : List Value) (s : Statement) (t : Table) :
    Option (Answer Bool) :=
  let answer :=
    match s.question with
    | .call verb parameters => j.effectStrict verb parameters supplied t
    | .condition id none => ask id supplied t
    | .condition id (some tokens) => do
      let (values, _) ← Token.resolveAllStrict t condition supplied tokens
      andThenStrict (some (values, t)) (ask id)
  andThenStrict answer fun value t => some (.ok (value != s.inverted), t)

/-- `Judge.condition`, read strictly, without the guard that it gives back. -/
def conditionStrict (j : Judge) (guard : Guard) (id : ConditionId) (supplied : List Value)
    (t : Table) : Option (Answer Bool) :=
  match _h : guard.enter j.graph id with
  | .error e => some (.error e, t)
  | .ok inner =>
    match _hc : j.graph.conditions[id.index]? with
    | none => some (.error (.unknownComponent "condition" id.describe), t)
    | some c =>
      let ask id values t := conditionStrict j inner id values t
      andThenStrict (chainStrict (j.statementStrict ask c.name supplied) c.statements t)
        fun value t => some (.ok (value != c.inverted), t)
termination_by guard.room j.graph
decreasing_by exact Guard.room_lt _h _hc

/-- `Judge.holds`, read strictly. -/
def holdsStrict (j : Judge) (r : ConditionRef) (supplied : List Value) (t : Table) :
    Option (Answer Bool) :=
  andThenStrict (j.conditionStrict .empty r.id supplied t) fun value t =>
    some (.ok (value != r.negated), t)

/-- `Judge.branch`, read strictly. -/
def branchStrict (j : Judge) (run : Performable → Table → Option (Answer Bool))
    (c : ControlledAction) (supplied : List Value) (t : Table) : Option (Answer Bool) :=
  match c.condition with
  | none => run c.onTrue t
  | some r =>
    andThenStrict (j.holdsStrict r supplied t) fun value t =>
      match value, c.onFalse with
      | true, _ => run c.onTrue t
      | false, some otherwise => run otherwise t
      | false, none => some (.ok false, t)

/-- `Judge.repeatRuns`, read strictly. -/
def repeatRunsStrict (run : Table → Option (Answer Bool))
    (atLimit : Bool → Except RuntimeError Bool) :
    (n : Nat) → (any : Bool) → Table → Option (Answer Bool)
  | 0, any, t => some (atLimit any, t)
  | n + 1, any, t =>
    andThenStrict (run t) fun effective t =>
      if effective then repeatRunsStrict run atLimit n true t else some (.ok any, t)

/-- `Judge.controlled`, read strictly. -/
def controlledStrict (j : Judge) (run : Performable → Table → Option (Answer Bool))
    (c : ControlledAction) (supplied : List Value) (t : Table) : Option (Answer Bool) :=
  let once := j.branchStrict run c supplied
  match c.repetition with
  | .once => once t
  | .times n => repeatRunsStrict once .ok n false t
  | .untilFalse =>
    repeatRunsStrict once (fun _ => .error (.repeatLimit c.name j.maxRepeat)) j.maxRepeat false t

/-- `Judge.runWithin`, read strictly. -/
def runWithinStrict (j : Judge) (supplied : List Value) :
    (levels : Nat) → Performable → Table → Option (Answer Bool)
  | _, .action id, t =>
    andThenStrict (some (j.graph.action id, t)) fun a t =>
      j.effectStrict a.verb a.parameters supplied t
  | 0, .controlled id, t =>
    andThenStrict (some (j.graph.controlledAction id, t)) fun c t =>
      some (.error (.nestedTooDeep c.name), t)
  | levels + 1, .controlled id, t =>
    andThenStrict (some (j.graph.controlledAction id, t)) fun c t =>
      j.controlledStrict (runWithinStrict j supplied levels) c supplied t

/-- `Judge.run`, read strictly. -/
def runStrict (j : Judge) (p : Performable) (supplied : List Value) (t : Table) :
    Option (Answer Bool) :=
  j.runWithinStrict supplied j.graph.controlled.length p t

/-! ## Play read strictly -/

/-- `Judge.runAll`, read strictly. -/
def runAllStrict (j : Judge) : List Performable → Table → Option (Answer Unit)
  | [], t => some (.ok (), t)
  | p :: ps, t => do
    if ← t.isOverStrict then return (.ok (), t)
    andThenStrict (j.runStrict p [] t) fun _ t => runAllStrict j ps t

/-- `Judge.respond`, read strictly. -/
def respondStrict (j : Judge) (supplied : List Value) :
    List Performable → Table → Option (Answer Unit)
  | [], t => some (.ok (), t)
  | p :: ps, t => andThenStrict (j.runStrict p supplied t) fun _ t => respondStrict j supplied ps t

/-- `Judge.enterPhase`, read strictly. -/
def enterPhaseStrict (j : Judge) (limit : Nat) (again : Nat) (t : Table) :
    Option (Answer Unit) := do
  if ← t.isOverStrict then return (.ok (), t)
  let position ← t.positionStrict
  match position.phase with
  | none => return (.ok (), t)
  | some id =>
    andThenStrict (some (j.graph.phase id, t)) fun phase t =>
      andThenStrict (j.runAllStrict phase.start t) fun _ t => do
        let reached ← t.positionStrict
        if reached = position then return (.ok (), t)
        match again with
        | 0 => return (.error (.phaseLoop phase.name limit), t)
        | again + 1 => enterPhaseStrict j limit again t

/-- `Judge.closeAction`, read strictly. -/
def closeActionStrict (j : Judge) (before : Position) (t : Table) : Option (Answer Unit) := do
  let position ← t.positionStrict
  match before.phase with
  | some id =>
    if position = before then
      andThenStrict (some (j.graph.phase id, t)) fun phase t => j.runAllStrict phase.finish t
    else return (.ok (), t)
  | none => return (.ok (), t)

/-- `Judge.settle`, read strictly. -/
def settleStrict (j : Judge) (limit : Nat) (before : Position) (t : Table) :
    Option (Answer Unit) := do
  if ← t.isOverStrict then return (.ok (), t)
  andThenStrict (j.closeActionStrict before t) fun _ t => do
    let position ← t.positionStrict
    if position = before then return (.ok (), t)
    j.enterPhaseStrict limit (limit - 1) t

/-- `Judge.permitted`, read strictly. -/
def permittedStrict (j : Judge) (phase : PhaseId) (index : Nat) :
    List AllowedAction → Table → Option (Answer (List Offer))
  | [], t => some (.ok [], t)
  | entry :: entries, t =>
    let permission :=
      match entry.precondition with
      | some r => j.holdsStrict r [] t
      | none => some (.ok true, t)
    andThenStrict permission fun permission t =>
      andThenStrict (permittedStrict j phase (index + 1) entries t) fun offers t =>
        some (.ok (if permission then ⟨phase, index, entry.action⟩ :: offers else offers), t)

/-! ## The same answers -/

variable {j : Judge} {l : Layout} {count : Nat} {t : Table}

/-- The tables at which a judge finds all that it takes. -/
abbrev SoundFor (j : Judge) (l : Layout) (count : Nat) (t : Table) : Prop :=
  t.Sound l count j.graph.phases.length

/-- A call at a sound table takes only piles and players that are there. -/
theorem callStrict_eq (ht : j.SoundFor l count t) (verb : Verb) (parameters : List Token)
    (supplied : List Value) :
    j.callStrict verb parameters supplied t = some (j.call verb parameters supplied t) :=
  Strict.bind_eq
    (Token.argumentsStrict_eq (Nat.zero_lt_of_lt ht.current) ht.numbered verb.keyword verb supplied
      parameters)
    fun values _ => Operation.dispatchStrict_eq ⟨verb, values⟩ j.ranking _ ht.current ht.numbered

/-- An action or a question at a sound table is met. -/
theorem effect_met (ht : j.SoundFor l count t) (verb : Verb) (parameters : List Token)
    (supplied : List Value) :
    Met (j.SoundFor l count) (j.effectStrict verb parameters supplied t)
      (j.effect verb parameters supplied t) := by
  unfold effectStrict effect
  rw [callStrict_eq ht]
  cases hcall : j.call verb parameters supplied t with
  | error e => exact .done ht
  | ok answer =>
    obtain ⟨outcome, t'⟩ := answer
    obtain ⟨values, -, hdispatch⟩ := bind_ok.1 hcall
    exact .done (Operation.sound_dispatch ht hdispatch)

variable {p : Table → Prop}

/-- The rest of a chain is met when its statements are. -/
theorem chainFrom_met {askStrict : Statement → Table → Option (Answer Bool)}
    {ask : Statement → Table → Answer Bool} (hask : ∀ s t, p t → Met p (askStrict s t) (ask s t))
    (statements : List Statement) (sofar : Bool) (pending : Connective) (ht : p t) :
    Met p (chainFromStrict askStrict sofar pending statements t)
      (chainFrom ask sofar pending statements t) := by
  induction statements generalizing sofar pending t with
  | nil => exact .done ht
  | cons s rest ih =>
    unfold chainFromStrict chainFrom
    split
    · exact .done ht
    · exact (hask s t ht).andThen fun next t ht => ih _ _ ht

/-- A chain is met when its statements are. -/
theorem chain_met {askStrict : Statement → Table → Option (Answer Bool)}
    {ask : Statement → Table → Answer Bool} (hask : ∀ s t, p t → Met p (askStrict s t) (ask s t))
    (statements : List Statement) (ht : p t) :
    Met p (chainStrict askStrict statements t) (chain ask statements t) := by
  cases statements with
  | nil => exact .done ht
  | cons s rest => exact (hask s t ht).andThen fun first t ht => chainFrom_met hask rest _ _ ht

/-- A statement is met when the conditions it asks are. -/
theorem statement_met {askStrict : ConditionId → List Value → Table → Option (Answer Bool)}
    {ask : ConditionId → List Value → Table → Answer Bool}
    (hask : ∀ id values t, j.SoundFor l count t →
      Met (j.SoundFor l count) (askStrict id values t) (ask id values t))
    (condition : String) (supplied : List Value) (s : Statement) (ht : j.SoundFor l count t) :
    Met (j.SoundFor l count) (j.statementStrict askStrict condition supplied s t)
      (j.statement ask condition supplied s t) := by
  unfold statementStrict statement
  refine Met.andThen ?_ fun value t ht => .done ht
  cases s.question with
  | call verb parameters => exact effect_met ht verb parameters supplied
  | condition id tokens =>
    cases tokens with
    | none => exact hask id supplied t ht
    | some tokens =>
      dsimp only
      rw [Token.resolveAllStrict,
        Token.resolveFromStrict_eq (Nat.zero_lt_of_lt ht.current) ht.numbered]
      exact Met.andThen (.done ht) fun values t ht => hask id values t ht

/-- Conditions find all that they take, whatever conditions are under way. -/
theorem condition_met (guard : Guard) (id : ConditionId) (supplied : List Value)
    (ht : j.SoundFor l count t) :
    Met (j.SoundFor l count) (j.conditionStrict guard id supplied t)
      (j.condition guard id supplied t).1 := by
  induction hroom : guard.room j.graph using Nat.strong_induction_on
    generalizing guard id supplied t with
  | _ n ih =>
    unfold conditionStrict condition
    cases hinner : guard.enter j.graph id with
    | error e => exact .done ht
    | ok inner =>
      cases hc : j.graph.conditions[id.index]? with
      | none => exact .done ht
      | some c =>
        refine (chain_met (fun s t ht => ?_) c.statements ht).andThen fun value t ht => .done ht
        refine statement_met (fun other values t ht => ?_) c.name supplied s ht
        exact ih _ (hroom ▸ Guard.room_lt hinner hc) inner other values ht rfl

/-- A reference to a condition is met. -/
theorem holds_met (r : ConditionRef) (supplied : List Value) (ht : j.SoundFor l count t) :
    Met (j.SoundFor l count) (j.holdsStrict r supplied t) (j.holds r supplied t) :=
  (condition_met .empty r.id supplied ht).andThen fun _ _ ht => .done ht

section

variable {runStrict : Performable → Table → Option (Answer Bool)}
  {run : Performable → Table → Answer Bool}
  (hrun : ∀ q t, j.SoundFor l count t → Met (j.SoundFor l count) (runStrict q t) (run q t))

include hrun

/-- A controlled action, run once, is met when its branches are. -/
theorem branch_met (c : ControlledAction) (supplied : List Value) (ht : j.SoundFor l count t) :
    Met (j.SoundFor l count) (j.branchStrict runStrict c supplied t)
      (j.branch run c supplied t) := by
  unfold branchStrict branch
  cases c.condition with
  | none => exact hrun c.onTrue t ht
  | some r =>
    refine (holds_met r supplied ht).andThen fun value t ht => ?_
    cases value with
    | true => exact hrun c.onTrue t ht
    | false =>
      cases c.onFalse with
      | some otherwise => exact hrun otherwise t ht
      | none => exact .done ht

omit hrun in
/-- Runs in a row are met when each of them is. -/
theorem repeatRuns_met {onceStrict : Table → Option (Answer Bool)} {once : Table → Answer Bool}
    (honce : ∀ t, p t → Met p (onceStrict t) (once t)) (atLimit : Bool → Except RuntimeError Bool)
    (n : Nat) (any : Bool) (ht : p t) :
    Met p (repeatRunsStrict onceStrict atLimit n any t) (repeatRuns once atLimit n any t) := by
  induction n generalizing any t with
  | zero => exact .done ht
  | succ n ih =>
    refine (honce t ht).andThen fun effective t ht => ?_
    split
    · exact ih true ht
    · exact .done ht

/-- A controlled action is met when its branches are, however it repeats. -/
theorem controlled_met (c : ControlledAction) (supplied : List Value)
    (ht : j.SoundFor l count t) :
    Met (j.SoundFor l count) (j.controlledStrict runStrict c supplied t)
      (j.controlled run c supplied t) := by
  have honce := fun t ht => branch_met (t := t) hrun c supplied ht
  unfold controlledStrict controlled
  cases c.repetition with
  | once => exact honce t ht
  | times n => exact repeatRuns_met honce _ _ _ ht
  | untilFalse => exact repeatRuns_met honce _ _ _ ht

end

/-- Running finds all that it takes, to whatever depth. -/
theorem runWithin_met (supplied : List Value) (levels : Nat) (q : Performable)
    (ht : j.SoundFor l count t) :
    Met (j.SoundFor l count) (j.runWithinStrict supplied levels q t)
      (j.runWithin supplied levels q t) := by
  induction levels generalizing q t with
  | zero =>
    cases q with
    | action id =>
      exact Met.andThen (.done ht) fun a t ht => effect_met ht a.verb a.parameters supplied
    | controlled id => exact Met.andThen (.done ht) fun c t ht => .done ht
  | succ levels ih =>
    cases q with
    | action id =>
      exact Met.andThen (.done ht) fun a t ht => effect_met ht a.verb a.parameters supplied
    | controlled id =>
      exact Met.andThen (.done ht) fun c t ht =>
        controlled_met (fun q t ht => ih q ht) c supplied ht

/-- Running an action or a controlled action is met. -/
theorem run_met (q : Performable) (supplied : List Value) (ht : j.SoundFor l count t) :
    Met (j.SoundFor l count) (j.runStrict q supplied t) (j.run q supplied t) :=
  runWithin_met supplied _ q ht

/-! ### Play -/

/-- Running things in a row is met. -/
theorem runAll_met (runs : List Performable) (ht : j.SoundFor l count t) :
    Met (j.SoundFor l count) (j.runAllStrict runs t) (j.runAll runs t) := by
  induction runs generalizing t with
  | nil => exact .done ht
  | cons q runs ih =>
    unfold runAllStrict runAll
    rw [Table.isOverStrict_eq, Option.bind_eq_bind, Option.bind_some]
    split
    · exact .done ht
    · exact (run_met q [] ht).andThen fun _ t ht => ih ht

/-- Running responses is met. -/
theorem respond_met (supplied : List Value) (runs : List Performable)
    (ht : j.SoundFor l count t) :
    Met (j.SoundFor l count) (j.respondStrict supplied runs t) (j.respond supplied runs t) := by
  induction runs generalizing t with
  | nil => exact .done ht
  | cons q runs ih => exact (run_met q supplied ht).andThen fun _ t ht => ih ht

/-- Entering phases finds all that it takes, however often play moves on. -/
theorem enterPhase_met (limit again : Nat) (ht : j.SoundFor l count t) :
    Met (j.SoundFor l count) (j.enterPhaseStrict limit again t) (j.enterPhase limit again t) := by
  induction again using Nat.strong_induction_on generalizing t with
  | _ again ih =>
    unfold enterPhaseStrict enterPhase
    simp only [Table.isOverStrict_eq, Table.positionStrict_eq ht.current, Option.bind_eq_bind,
      Option.bind_some]
    cases t.isOver with
    | true => exact .done ht
    | false =>
      simp only [Bool.false_eq_true, if_false]
      cases t.position.phase with
      | none => exact .done ht
      | some id =>
        refine Met.andThen (.done ht) fun phase t₁ ht => ?_
        refine (runAll_met phase.start ht).andThen fun _ t₂ ht => ?_
        rw [Table.positionStrict_eq ht.current, Option.bind_some]
        split
        · exact .done ht
        · cases again with
          | zero => exact .done ht
          | succ again => exact ih again (Nat.lt_succ_self again) ht

/-- Running closing actions is met. -/
theorem closeAction_met (before : Position) (ht : j.SoundFor l count t) :
    Met (j.SoundFor l count) (j.closeActionStrict before t) (j.closeAction before t) := by
  unfold closeActionStrict closeAction
  rw [Table.positionStrict_eq ht.current, Option.bind_eq_bind, Option.bind_some]
  cases before.phase with
  | none => exact .done ht
  | some id =>
    dsimp only
    split
    · exact Met.andThen (.done ht) fun phase t ht => runAll_met phase.finish ht
    · exact .done ht

/-- Settling is met. -/
theorem settle_met (limit : Nat) (before : Position) (ht : j.SoundFor l count t) :
    Met (j.SoundFor l count) (j.settleStrict limit before t) (j.settle limit before t) := by
  unfold settleStrict settle
  rw [Table.isOverStrict_eq, Option.bind_eq_bind, Option.bind_some]
  split
  · exact .done ht
  · refine (closeAction_met before ht).andThen fun _ t ht => ?_
    rw [Table.positionStrict_eq ht.current, Option.bind_eq_bind, Option.bind_some]
    split
    · exact .done ht
    · exact enterPhase_met limit (limit - 1) ht

/-- Finding out what is permitted is met. -/
theorem permitted_met (phase : PhaseId) (index : Nat) (entries : List AllowedAction)
    (ht : j.SoundFor l count t) :
    Met (j.SoundFor l count) (j.permittedStrict phase index entries t)
      (j.permitted phase index entries t) := by
  induction entries generalizing index t with
  | nil => exact .done ht
  | cons entry entries ih =>
    unfold permittedStrict permitted
    refine Met.andThen ?_ fun permission t ht =>
      (ih (index + 1) ht).andThen fun offers t ht => .done ht
    cases entry.precondition with
    | none => exact .done ht
    | some r => exact holds_met r [] ht

end Judge

end HouseRules
