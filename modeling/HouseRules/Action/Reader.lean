import HouseRules.Condition.Reader
import HouseRules.Record

/-!
# Reading actions and controlled actions

The first line of an action is the call of its verb, the others describe it. The first line of a
controlled action is `allow action` or `[not] condition action [action]`; a `repeat` line says how
often it runs, and the others describe it.

Reference: `compile_action`, `compile_controlled`, `parse_control` of `ComponentCompiler`
(specification 4.2, E2.3).
-/

namespace HouseRules

/-- The description that some lines make, if there are any. -/
def description? (lines : List String) : Option String :=
  if lines.isEmpty then none else some (" ".intercalate lines)

/-- The error for a record without the line that says what it does. -/
def Record.incomplete (doc : Document) (r : Record) (what name : String) : CompileError :=
  .missingParameter doc.identity (what ++ " " ++ name) r.line

/-- Reads the action of a name from its record. Reference: `ComponentCompiler.compile_action`. -/
def Action.read (s : Scope) (doc : Document) (name : String) (r : Record) : Compiled Action :=
  match r.body with
  | [] => .error (r.incomplete doc "action" name)
  | call :: rest =>
    match s.tokens call with
    | [] => .error (r.incomplete doc "action" name)
    | word :: tokens => do
      let verb ← orFail (.invalidReference doc.identity "operation" word) (Verb.ofWord? word)
      let parameters ← Token.readParameters s name verb tokens
      return ⟨name, description? rest, verb, parameters⟩

/-- Reads the gate in front of a line, `allow` or a condition, and gives the words after it.
Reference: `statements.gate`. -/
def ConditionRef.readGate (s : Scope) (component : String) :
    List String → Compiled (Option ConditionRef × List String)
  | [] => .error (.invalidComponent "controlled-action" component "empty control line")
  | "allow" :: rest => .ok (none, rest)
  | "not" :: name :: rest => do return (some ⟨← s.condition name component, true⟩, rest)
  | name :: rest => do return (some ⟨← s.condition name component, false⟩, rest)

/-- Reads the control line of a controlled action: its condition and one or two branches. Reference:
`statements.parse_control`. -/
def ControlledAction.readControl (s : Scope) (component line : String) :
    Compiled (Option ConditionRef × Performable × Option Performable) := do
  let (condition, names) ← ConditionRef.readGate s component (s.tokens line)
  let limit := if condition.isSome then 2 else 1
  let wrong : CompileError := .invalidComponent "controlled-action" component
    s!"control line `{line}` must name 1 to {limit} actions"
  if names.length > limit then throw wrong
  match names with
  | [] => throw wrong
  | first :: others =>
    let onTrue ← s.performable first component
    let others ← others.mapM fun name => s.performable name component
    return (condition, onTrue, others.head?)

/-- Reads a `repeat` line. Reference: `statements.parse_repeat`. -/
def Repeat.read (s : Scope) (line : String) : Compiled Repeat :=
  match Text.tokens line with
  | [_] => .ok .untilFalse
  | [_, count] =>
    orFail (.invalidParameter s.document "repeat" count)
      (((Text.shortCount? count).filter (1 ≤ ·)).map .times)
  | _ => .error (.invalidParameter s.document "repeat" line)

/-- Reads the lines after the control line: how often to run, if that is said, and the
description. -/
def ControlledAction.readRest (s : Scope) (component : String) (lines : List String) :
    Compiled (Option Repeat × List String) :=
  lines.foldlM (fun (repetition, description) line => do
    if Text.firstWord line == "repeat" then
      if repetition.isSome then
        throw (.invalidComponent "controlled-action" component "more than one `repeat` line")
      return (some (← Repeat.read s line), description)
    else return (repetition, description ++ [line])) (none, [])

/-- Reads the controlled action of a name from its record. Reference:
`ComponentCompiler.compile_controlled`. -/
def ControlledAction.read (s : Scope) (doc : Document) (name : String) (r : Record) :
    Compiled ControlledAction :=
  match r.body with
  | [] => .error (r.incomplete doc "controlled-action" name)
  | control :: rest => do
    let (condition, onTrue, onFalse) ← readControl s name control
    let (repetition, description) ← readRest s name rest
    return ⟨name, description? description, condition, onTrue, onFalse, repetition.getD .once⟩

end HouseRules
