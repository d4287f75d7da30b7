import HouseRules.Argument
import HouseRules.Guard
import HouseRules.Operation

/-!
# Evaluating conditions and running actions

The judge knows the components and the ranking of a game and applies them to a table. Evaluating and
running may change the table and may fail; what a failed step has changed before it failed stays
changed, so every function here answers with a result and a table side by side (`Answer`).

A condition asks its statements from left to right and stops once the rest cannot matter. Conditions
may ask one another, and the guard sees to it that none is inside itself, which is also why
evaluation ends. A controlled action evaluates its condition under an empty guard, picks a branch
and repeats it; `Judge.runWithin` takes as many levels of controlled actions as it is allowed, and a
game whose controlled actions do not run themselves never needs more levels than it has controlled
actions.

Reference: `Evaluator` (specification 4.5, E4).
-/

namespace HouseRules

/-- A result, or an error, and the table after it. -/
abbrev Answer (α : Type) := Except RuntimeError α × Table

namespace Answer

/-- Goes on with a result; an error ends everything. -/
@[inline] def andThen {α β : Type} (r : Answer α) (next : α → Table → Answer β) : Answer β :=
  match r with
  | (.ok a, t) => next a t
  | (.error e, t) => (.error e, t)

@[simp] theorem andThen_ok {α β : Type} (a : α) (t : Table) (next : α → Table → Answer β) :
    andThen (.ok a, t) next = next a t := rfl

@[simp] theorem andThen_error {α β : Type} (e : RuntimeError) (t : Table)
    (next : α → Table → Answer β) : andThen (.error e, t) next = (.error e, t) := rfl

/-- What holds of the table after both halves holds after the whole. -/
theorem andThen_table {α β : Type} {p : Table → Prop} {r : Answer α}
    {next : α → Table → Answer β} (hr : p r.2) (hnext : ∀ a t, r = (.ok a, t) → p (next a t).2) :
    p (andThen r next).2 := by
  obtain ⟨e | a, t⟩ := r
  · exact hr
  · exact hnext a t rfl

/-- A result for a table that stays as it is. -/
def ofExcept {α : Type} (t : Table) (x : Except RuntimeError α) : Answer α := (x, t)

end Answer

open Answer (andThen)

/-- What applies the components of a game to a table. Reference: `Evaluator`. -/
structure Judge where
  graph : Graph
  ranking : Ranking
  /-- How often an action may be repeated that runs until it has no effect. -/
  maxRepeat : Nat
  deriving Repr

namespace Judge

/-! ## Calls -/

/-- Finds the arguments of a verb and calls it. -/
def call (j : Judge) (verb : Verb) (parameters : List Token) (supplied : List Value) (t : Table) :
    Except RuntimeError (Outcome × Table) := do
  let values ← (Token.arguments t verb.keyword verb supplied parameters).1
  Operation.dispatch ⟨verb, values⟩ j.ranking j.graph.phases.length t

/-- Calls a verb and says whether it took effect. -/
def effect (j : Judge) (verb : Verb) (parameters : List Token) (supplied : List Value)
    (t : Table) : Answer Bool :=
  match j.call verb parameters supplied t with
  | .ok (outcome, t) => (.ok outcome.tookEffect, t)
  | .error e => (.error e, t)

/-! ## Conditions -/

/-- The verdict of the statements that follow a verdict and a connective. -/
def chainFrom (ask : Statement → Table → Answer Bool) (sofar : Bool) (pending : Connective) :
    List Statement → Table → Answer Bool
  | [], t => (.ok sofar, t)
  | s :: rest, t =>
    if pending.decides sofar then (.ok sofar, t)
    else andThen (ask s t) fun next t =>
      chainFrom ask (pending.combine sofar next) (s.connective.getD .and) rest t

/-- The verdict of a chain of statements; an empty chain holds. Reference: `Evaluator.chain`. -/
def chain (ask : Statement → Table → Answer Bool) : List Statement → Table → Answer Bool
  | [], t => (.ok true, t)
  | s :: rest, t =>
    andThen (ask s t) fun first t => chainFrom ask first (s.connective.getD .and) rest t

/-- The answer to a statement of a condition, where `ask` evaluates other conditions. Reference:
`Evaluator.statement`. -/
def statement (j : Judge) (ask : ConditionId → List Value → Table → Answer Bool)
    (condition : String) (supplied : List Value) (s : Statement) (t : Table) : Answer Bool :=
  let answer :=
    match s.question with
    | .call verb parameters => j.effect verb parameters supplied t
    | .condition id none => ask id supplied t
    | .condition id (some tokens) =>
      andThen (.ofExcept t (Token.resolveAll t condition supplied tokens).1) (ask id)
  andThen answer fun value t => (.ok (value != s.inverted), t)

/-- Evaluates a condition and gives the guard back. Reference: `Evaluator.condition`. -/
def condition (j : Judge) (guard : Guard) (id : ConditionId) (supplied : List Value) (t : Table) :
    Answer Bool × Guard :=
  match _h : guard.enter j.graph id with
  | .error e => ((.error e, t), guard)
  | .ok inner =>
    match _hc : j.graph.conditions[id.index]? with
    | none => ((.error (.unknownComponent "condition" id.describe), t), inner.exit)
    | some c =>
      let ask id values t := (condition j inner id values t).1
      let verdict := chain (j.statement ask c.name supplied) c.statements t
      (andThen verdict fun value t => (.ok (value != c.inverted), t), inner.exit)
termination_by guard.room j.graph
decreasing_by exact Guard.room_lt _h _hc

/-- Evaluates a reference to a condition, with no other condition under way. Reference:
`Evaluator.condition_ref`. -/
def holds (j : Judge) (r : ConditionRef) (supplied : List Value) (t : Table) : Answer Bool :=
  andThen (j.condition .empty r.id supplied t).1 fun value t => (.ok (value != r.negated), t)

/-! ## Actions -/

/-- Runs the branch of a controlled action that its condition picks. Reference:
`Evaluator.branch`. -/
def branch (j : Judge) (run : Performable → Table → Answer Bool) (c : ControlledAction)
    (supplied : List Value) (t : Table) : Answer Bool :=
  match c.condition with
  | none => run c.onTrue t
  | some r =>
    andThen (j.holds r supplied t) fun value t =>
      match value, c.onFalse with
      | true, _ => run c.onTrue t
      | false, some otherwise => run otherwise t
      | false, none => (.ok false, t)

/-- Runs something up to the first time without effect, at most `n` times; says whether any run took
effect, and `atLimit` decides what it means that all did. -/
def repeatRuns (run : Table → Answer Bool) (atLimit : Bool → Except RuntimeError Bool) :
    (n : Nat) → (any : Bool) → Table → Answer Bool
  | 0, any, t => (atLimit any, t)
  | n + 1, any, t =>
    andThen (run t) fun effective t =>
      if effective then repeatRuns run atLimit n true t else (.ok any, t)

/-- Runs a controlled action as often as it says. Reference: `Evaluator.controlled`. -/
def controlled (j : Judge) (run : Performable → Table → Answer Bool) (c : ControlledAction)
    (supplied : List Value) (t : Table) : Answer Bool :=
  let once := j.branch run c supplied
  match c.repetition with
  | .once => once t
  | .times n => repeatRuns once .ok n false t
  | .untilFalse =>
    repeatRuns once (fun _ => .error (.repeatLimit c.name j.maxRepeat)) j.maxRepeat false t

/-- Runs an action or a controlled action, entering at most `levels` controlled actions inside one
another; says whether it took effect. -/
def runWithin (j : Judge) (supplied : List Value) :
    (levels : Nat) → Performable → Table → Answer Bool
  | _, .action id, t =>
    andThen (.ofExcept t (j.graph.action id)) fun a t => j.effect a.verb a.parameters supplied t
  | 0, .controlled id, t =>
    andThen (.ofExcept t (j.graph.controlledAction id)) fun c t =>
      (.error (.nestedTooDeep c.name), t)
  | levels + 1, .controlled id, t =>
    andThen (.ofExcept t (j.graph.controlledAction id)) fun c t =>
      j.controlled (runWithin j supplied levels) c supplied t

/-- Runs an action or a controlled action. Reference: `Evaluator.execute`. -/
def run (j : Judge) (p : Performable) (supplied : List Value) (t : Table) : Answer Bool :=
  j.runWithin supplied j.graph.controlled.length p t

end Judge

end HouseRules
