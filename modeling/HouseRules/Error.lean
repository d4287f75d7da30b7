/-!
# What can go wrong

Two families of errors, kept apart because they arise at different times. A `CompileError` says why
rule documents do not make a game; no game comes out then. A `RuntimeError` says why a call on a
running game could not be carried out: a value of the wrong kind, a pile that is not there, a
condition that asks itself. A move that is merely not possible at the moment is no error but the
answer `false`.

Each error names its cause, and `message` gives its wording.

Reference: `CompileError`, `RuntimeError` (specification 7, E1.3).
-/

namespace HouseRules

/-- Why rule documents do not make a game. Reference: `CompileError`. -/
inductive CompileError where
  | missingKeyword (document keyword : String)
  | missingParameter (document keyword : String) (line : Nat)
  | invalidReference (document expected name : String)
  | invalidParameter (document keyword value : String)
  | duplicateComponent (kind name : String)
  | countMismatch (document what : String) (expected actual : Nat)
  | invalidStatement (condition statement reason : String)
  | invalidComponent (kind component reason : String)
  | unresolvedReference (kind name referrer : String)
  | wrongParameterCount (component operation : String) (expected actual : Nat)
  | multipleDealAll (document : String)
  | playerCount (game : String) (least most actual : Nat)
  | unreadable (reason : String)
  deriving Repr, DecidableEq

/-- The wording of an error in rule documents. -/
def CompileError.message : CompileError → String
  | .missingKeyword document keyword => s!"{document}: missing keyword `{keyword}`"
  | .missingParameter document keyword line =>
    s!"{document}: keyword `{keyword}` has no parameters (line {line})"
  | .invalidReference document expected name => s!"{document}: `{name}` is not a valid {expected}"
  | .invalidParameter document keyword value =>
    s!"{document}: invalid value `{value}` for `{keyword}`"
  | .duplicateComponent kind name => s!"duplicate {kind} `{name}`"
  | .countMismatch document what expected actual =>
    s!"{document}: expected {expected} {what}, found {actual}"
  | .invalidStatement condition statement reason =>
    s!"condition `{condition}`: invalid statement `{statement}`: {reason}"
  | .invalidComponent kind component reason => s!"{kind} `{component}`: {reason}"
  | .unresolvedReference kind name referrer => s!"`{referrer}` refers to unknown {kind} `{name}`"
  | .wrongParameterCount component operation expected actual =>
    s!"`{component}`: `{operation}` expects {expected} parameters, found {actual}"
  | .multipleDealAll document => s!"{document}: more than one distribution pair deals `all`"
  | .playerCount game least most actual =>
    s!"game `{game}` needs {least}..={most} players, got {actual}"
  | .unreadable reason => s!"I/O error: {reason}"

/-- Why a call on a running game could not be carried out. Reference: `RuntimeError`. -/
inductive RuntimeError where
  | wrongArgumentCount (operation : String) (expected actual : Nat)
  | wrongArgumentKind (operation : String) (index : Nat) (expected actual : String)
  | unusableArgument (operation operand reason : String)
  | circularCondition (condition : String) (chain : List String)
  | unknownComponent (kind name : String)
  | repeatLimit (component : String) (limit : Nat)
  | phaseLoop (phase : String) (limit : Nat)
  /-- Controlled actions that run one another to a greater depth than there are of them. -/
  | nestedTooDeep (component : String)
  deriving Repr, DecidableEq

/-- The wording of an error in a running game. -/
def RuntimeError.message : RuntimeError → String
  | .wrongArgumentCount operation expected actual =>
    s!"`{operation}` expects {expected} parameters, got {actual}"
  | .wrongArgumentKind operation index expected actual =>
    s!"`{operation}` parameter {index}: expected {expected}, got {actual}"
  | .unusableArgument operation operand reason =>
    s!"`{operation}`: cannot resolve `{operand}`: {reason}"
  | .circularCondition condition chain =>
    let path := " -> ".intercalate chain
    s!"condition `{condition}` recursively references itself (via {path})"
  | .unknownComponent kind name => s!"invalid {kind}: {name}"
  | .repeatLimit component limit => s!"`{component}` repeated {limit} times without stopping"
  | .phaseLoop phase limit => s!"phase `{phase}` re-entered {limit} times in a row"
  | .nestedTooDeep component => s!"`{component}` runs itself through its branches"

/-- What compiling gives: a result or the first error met. -/
abbrev Compiled (α : Type) := Except CompileError α

/-- The value that is there, or the error that says why it has to be. -/
def orFail {ε α : Type} (error : ε) : Option α → Except ε α
  | some a => .ok a
  | none => .error error

@[simp] theorem orFail_some {ε α : Type} (error : ε) (a : α) : orFail error (some a) = .ok a := rfl

@[simp] theorem orFail_none {ε α : Type} (error : ε) :
    orFail error (none : Option α) = .error error := rfl

/-- A look-up succeeds with what was found. -/
theorem orFail_eq_ok {ε α : Type} {error : ε} {x : Option α} {a : α} :
    orFail error x = .ok a ↔ x = some a := by
  cases x <;> simp

end HouseRules
