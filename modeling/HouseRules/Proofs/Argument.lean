import HouseRules.Proofs.Operation

/-!
# Finding arguments
-/

namespace HouseRules

namespace Token

variable {t : Table} {context : String} {supplied : List Value}

/-- Naming a seat's pile fails only over the arguments, where that seat has no such pile. -/
theorem selected_failsOnly (selector : PileSelector) :
    FailsOnly RuntimeError.IsArgument (selected t context selector) := .orFail trivial

/-- Reading the pile of a selector fails only over the arguments. -/
theorem selectedPile_failsOnly (selector : PileSelector) :
    FailsOnly RuntimeError.IsArgument (selectedPile t context selector) :=
  .bind (selected_failsOnly selector) fun _ _ => .orFail trivial

/-- The value of a token that stands for itself fails only over the arguments: a pile that is not
there or has no card to show. -/
theorem constant_failsOnly (token : Token) :
    FailsOnly RuntimeError.IsArgument (constant t context token) := by
  cases token with
  | pile selector => exact .bind (selected_failsOnly selector) fun _ _ => .pure
  | top selector | bottom selector =>
    exact .bind (selectedPile_failsOnly selector) fun _ _ =>
      .bind (.orFail trivial) fun _ _ => .pure
  | contents selector => exact .bind (selectedPile_failsOnly selector) fun _ _ => .pure
  | placeholder kind => exact .error trivial
  | _ => exact .pure

/-- Taking supplied values for a placeholder fails only over what was supplied. -/
theorem take_failsOnly {kind : Kind} {i : Nat} :
    FailsOnly RuntimeError.IsArgument (take context kind i supplied).1 := by
  unfold take
  split
  · exact .error trivial
  · split
    · exact .error trivial
    · split <;> exact .ok

/-- The value of any token fails only over the arguments. -/
theorem resolve_failsOnly {i : Nat} (token : Token) :
    FailsOnly RuntimeError.IsArgument (resolve t context i supplied token).1 := by
  unfold resolve
  split
  · exact take_failsOnly
  · exact constant_failsOnly token

/-- The values of a row of tokens fail only over the arguments, as the first that fails does. -/
theorem resolveFrom_failsOnly {i : Nat} (tokens : List Token) :
    FailsOnly RuntimeError.IsArgument (resolveFrom t context i supplied tokens).1 := by
  induction tokens generalizing i supplied with
  | nil => exact .ok
  | cons token tokens ih =>
    unfold resolveFrom
    split
    next e rest heq => exact .error (resolve_failsOnly token e (by rw [heq]))
    next value rest heq => exact .map ih

/-- Finding the values of parameters fails only over these. -/
theorem resolveAll_failsOnly (t : Table) (context : String) (supplied : List Value)
    (tokens : List Token) :
    FailsOnly RuntimeError.IsArgument (resolveAll t context supplied tokens).1 :=
  resolveFrom_failsOnly tokens

/-- Joining the values beyond the arity into the last one fails only over their kinds. -/
theorem joinExtras_failsOnly {verb : Verb} {kind : Kind} {i : Nat} {joined : Value}
    (extras : List Value) :
    FailsOnly RuntimeError.IsArgument (joinExtras verb kind i joined extras) := by
  induction extras generalizing i joined with
  | nil => exact .ok
  | cons extra extras ih => exact .bind (.orFail trivial) fun _ _ => ih

/-- Fitting values to the signature of a verb fails only over their number and their kinds. -/
theorem shape_failsOnly {verb : Verb} (values : List Value) :
    FailsOnly RuntimeError.IsArgument (shape verb context values) := by
  unfold shape
  dsimp only
  split
  · exact .pure
  · exact .bind (.orFail trivial) fun _ _ => .bind (joinExtras_failsOnly _) fun _ _ => .pure

/-- Finding the arguments of a call fails only over these. -/
theorem arguments_failsOnly (t : Table) (context : String) (verb : Verb) (supplied : List Value)
    (tokens : List Token) :
    FailsOnly RuntimeError.IsArgument (arguments t context verb supplied tokens).1 := by
  unfold arguments
  split
  · exact .error trivial
  · exact .bind (resolveAll_failsOnly t context supplied tokens) fun values _ =>
      shape_failsOnly values

end Token

end HouseRules
