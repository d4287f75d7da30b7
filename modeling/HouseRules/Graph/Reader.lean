import HouseRules.Graph.Cycle
import HouseRules.Phase.Reader

/-!
# Compiling the components of a rules document

First the aliases and the names of all components are collected, then the components are read with
all names in scope, so that references may point forward. At last no controlled action may be able
to run itself. Cycles among conditions are left to their evaluation.

Reference: `ComponentCompiler.compile` (specification 4.2).
-/

namespace HouseRules

/-- Reads one alias line. -/
def Alias.readAt (doc : Document) (aliases : List Alias) (line : Nat) : Compiled (List Alias) := do
  let text ← doc.requireParamsAt line "alias"
  match Text.tokens text with
  | [] => throw (.missingParameter doc.identity "alias" line)
  | [name] => throw (.missingParameter doc.identity ("alias " ++ name) line)
  | name :: replacement =>
    if aliases.any (·.name == name) then throw (.duplicateComponent "alias" name)
    return aliases ++ [⟨name, replacement⟩]

/-- The aliases of a document. Reference: `ComponentCompiler.collect_aliases`. -/
def Alias.readAll (doc : Document) : Compiled (List Alias) :=
  (doc.positions "alias").foldlM (readAt doc) []

namespace Graph

/-- The records of every component of a document. -/
structure Records where
  actions : List Record
  controlled : List Record
  conditions : List Record
  phases : List Record
  deriving Repr, DecidableEq

/-- Parts a document into records. -/
def Records.ofDocument (doc : Document) : Compiled Records := do
  let actions ← Record.split doc "action" "end-action"
  let controlled ← Record.split doc "controlled-action" "end-controlled-action"
  let conditions ← Record.split doc "condition" "end-condition"
  let phases ← Record.split doc "phase" "end-phase"
  return ⟨actions, controlled, conditions, phases⟩

/-- The names of records of one kind, which have to differ. Reference:
`ComponentCompiler.declare`. -/
def declare (kind : String) (nameIn : String → Compiled String) (records : List Record) :
    Compiled (List String) :=
  records.foldlM (fun names r => do
    let name ← nameIn r.header
    if names.contains name then throw (.duplicateComponent kind name)
    return names ++ [name]) []

/-- The name in the header of a controlled action, which no action may have. -/
def controlledName (doc : Document) (actions : List String) (header : String) :
    Compiled String := do
  let name ← Record.plainName doc "controlled-action" header
  if actions.contains name then throw (.duplicateComponent "action" name)
  return name

/-- The name in the header of a condition, which no verb may have. -/
def conditionName (doc : Document) (header : String) : Compiled String := do
  let (name, _) ← Record.negatableName doc "condition" header
  if (Verb.ofWord? name).isSome then
    throw (.invalidComponent "condition" name "name is an operation verb")
  return name

/-- Collects the names of all components. -/
def readScope (doc : Document) (layout : Layout) (aliases : List Alias) (records : Records) :
    Compiled Scope := do
  let actions ← declare "action" (Record.plainName doc "action") records.actions
  let controlled ← declare "controlled-action" (controlledName doc actions) records.controlled
  let conditions ← declare "condition" (conditionName doc) records.conditions
  let phases ← declare "phase" (Record.plainName doc "phase") records.phases
  return { document := doc.identity, layout, aliases, actions, controlled, conditions, phases }

/-- Reads a condition from its record. -/
def readCondition (s : Scope) (doc : Document) (r : Record) : Compiled Condition := do
  let (name, inverted) ← Record.negatableName doc "condition" r.header
  let statements ← Condition.readStatements s name r.body
  return ⟨name, statements, inverted⟩

/-- Reads all components with their names in scope. -/
def read (s : Scope) (doc : Document) (records : Records) : Compiled Graph := do
  let actions ← (s.actions.zip records.actions).mapM fun (name, r) => Action.read s doc name r
  let controlled ← (s.controlled.zip records.controlled).mapM fun (name, r) =>
    ControlledAction.read s doc name r
  let conditions ← records.conditions.mapM (readCondition s doc)
  let phases ← (s.phases.zip records.phases).mapM fun (name, r) => Phase.read s name r.body
  return { aliases := s.aliases, actions, controlled, conditions, phases }

/-- The name of a controlled action, or its number if it has none. -/
def controlledLabel (g : Graph) (id : ControlledId) : String :=
  match g.controlled[id.index]? with
  | some c => c.name
  | none => id.describe

/-- Compiles the components of a rules document for a board. Reference:
`ComponentCompiler.compile`. -/
def compile (doc : Document) (layout : Layout) : Compiled Graph := do
  let aliases ← Alias.readAll doc
  let records ← Records.ofDocument doc
  let scope ← readScope doc layout aliases records
  let g ← read scope doc records
  match g.findCycle? with
  | some id =>
    throw (.invalidComponent "controlled-action" (g.controlledLabel id)
      "runs itself through its branches")
  | none => return g

end Graph

end HouseRules
