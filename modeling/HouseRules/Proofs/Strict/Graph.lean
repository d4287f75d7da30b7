import HouseRules.Proofs.Graph.Closed
import HouseRules.Proofs.Graph.Cycle
import HouseRules.Proofs.Strict.Document

/-!
# Components read strictly

The lines of a component are read as tokens, and the first token of an alias or of a negated
statement is taken out, the lines of a phase are cut at its allow block and a line of this block at
the word `then`, and the first branch of a control line is taken by its place. All this is there
whatever the document says: a line that is not blank has a token, the ends of a block are found in
it, and a control line is only used when it names a branch.

The search for controlled actions that run themselves marks controlled actions by their number, so
it needs more: that a branch is a controlled action of the graph, which holds as the graph has been
read with the names of its components in scope (`Graph.closed_of_read`).
-/

namespace HouseRules

/-! ## Aliases -/

namespace Alias

variable {doc : Document}

/-- `Alias.readAt`, read strictly: the first token is taken out. -/
def readAtStrict (doc : Document) (aliases : List Alias) (line : Nat) :
    Strict CompileError (List Alias) := do
  let text ← doc.requireParamsAtStrict line "alias"
  let (name, replacement) ← takeOut? (Text.tokens text) 0
  if replacement.isEmpty then throw (.missingParameter doc.identity ("alias " ++ name) line)
  if aliases.any (·.name == name) then throw (.duplicateComponent "alias" name)
  return aliases ++ [⟨name, replacement⟩]

/-- `Alias.readAll`, read strictly. -/
def readAllStrict (doc : Document) : Strict CompileError (List Alias) :=
  (doc.positions "alias").foldlM (readAtStrict doc) []

/-- An alias line that says something has a first token. -/
theorem readAtStrict_eq (aliases : List Alias) (line : Nat) :
    readAtStrict doc aliases line = some (readAt doc aliases line) := by
  refine Strict.bind_eq (Document.requireParamsAtStrict_eq _ _) fun text htext => ?_
  obtain ⟨name, replacement, htokens⟩ :=
    List.exists_cons_of_ne_nil (Document.tokens_ne_nil htext)
  rw [htokens, Strict.take_bind (takeOut?_cons name replacement)]
  cases replacement with
  | nil => rfl
  | cons word rest =>
    refine (if_neg Bool.false_ne_true).trans ?_
    exact Strict.guard_eq fun _ => rfl

/-- Aliases are read without taking a token that is not there. -/
theorem readAllStrict_eq : readAllStrict doc = some (readAll doc) :=
  Strict.foldlM_eq (fun aliases line _ => readAtStrict_eq aliases line) []

end Alias

/-! ## Controlled actions -/

namespace ControlledAction

/-- `ControlledAction.readControl`, read strictly: the branch taken first is that of the first
name. -/
def readControlStrict (s : Scope) (component line : String) :
    Strict CompileError (Option ConditionRef × Performable × Option Performable) := do
  let (condition, names) ← ConditionRef.readGate s component (s.tokens line)
  let limit := if condition.isSome then 2 else 1
  let wrong : CompileError := .invalidComponent "controlled-action" component
    s!"control line `{line}` must name 1 to {limit} actions"
  if names.isEmpty || names.length > limit then throw wrong
  let branches : List Performable ←
    (names.mapM fun name => s.performable name component : Compiled _)
  let onTrue ← Strict.entry branches 0
  return (condition, onTrue, branches[1]?)

/-- `ControlledAction.read`, read strictly. -/
def readStrict (s : Scope) (doc : Document) (name : String) (r : Record) :
    Strict CompileError ControlledAction :=
  match r.body with
  | [] => throw (r.incomplete doc "controlled-action" name)
  | control :: rest => do
    let (condition, onTrue, onFalse) ← readControlStrict s name control
    let (repetition, description) ← readRest s name rest
    return ⟨name, description? description, condition, onTrue, onFalse, repetition.getD .once⟩

variable {s : Scope} {doc : Document}

/-- A control line is read without taking a branch that is not there. -/
theorem readControlStrict_eq (component line : String) :
    readControlStrict s component line = some (readControl s component line) := by
  refine Strict.read_bind fun (condition, names) _ => ?_
  dsimp only
  generalize CompileError.invalidComponent _ _ _ = wrong
  generalize (if condition.isSome then 2 else 1) = limit
  cases names with
  | nil =>
    exact (if_pos rfl).trans (congrArg some (if_neg (Nat.not_lt_zero limit)).symm)
  | cons first others =>
    simp only [List.isEmpty_cons, Bool.false_or, decide_eq_true_eq]
    refine Strict.guard_eq fun _ => ?_
    rw [List.mapM_cons]
    cases s.performable first component with
    | error e => rfl
    | ok onTrue =>
      cases others.mapM fun name => s.performable name component with
      | error e => rfl
      | ok branches => cases branches <;> rfl

/-- A controlled action is read without taking a line that is not there. -/
theorem readStrict_eq (name : String) (r : Record) :
    readStrict s doc name r = some (read s doc name r) := by
  unfold readStrict read
  cases r.body with
  | nil => rfl
  | cons control rest =>
    refine Strict.bind_eq (readControlStrict_eq name control) fun _ _ => ?_
    exact Strict.read_bind fun _ _ => rfl

end ControlledAction

/-! ## Conditions -/

/-- `Statement.part`, read strictly: a leading `not` is taken out. -/
def Statement.partStrict (tokens : List String) :
    Option (Bool × List String × Option Connective) := do
  let inverted := tokens.head? == some "not"
  let tokens ← if inverted then (takeOut? tokens 0).map (·.2) else some tokens
  match tokens.getLast?.bind Connective.ofWord? with
  | some connective => return (inverted, tokens.dropLast, some connective)
  | none => return (inverted, tokens, none)

/-- `Statement.read`, read strictly. -/
def Statement.readStrict (s : Scope) (condition line : String) : Strict CompileError Statement := do
  let (inverted, words, connective) ← partStrict (s.tokens line)
  match words with
  | [] => throw (invalid condition line "empty statement")
  | head :: rest =>
    let question ← Question.read s condition line head rest
    return ⟨inverted, question, connective⟩

/-- `Condition.readStatements`, read strictly. -/
def Condition.readStatementsStrict (s : Scope) (condition : String) (body : List String) :
    Strict CompileError (List Statement) := do
  if body.isEmpty then throw (.invalidComponent "condition" condition "has no statements")
  let statements ← body.mapM (Statement.readStrict s condition)
  if (statements.getLast?.bind (·.connective)).isSome then
    throw (Statement.invalid condition (body.getLast?.getD "")
      "connective without a following statement")
  return statements

variable {s : Scope}

/-- Without a leading `not` all tokens but the connective are the words of the statement. -/
theorem Statement.part_of_ne {tokens : List String} (h : ∀ rest, tokens = "not" :: rest → False) :
    part tokens = (tokens.getLast?.bind Connective.ofWord?).elim (false, tokens, none)
      fun connective => (false, tokens.dropLast, some connective) := by
  simp only [part]
  cases tokens.getLast?.bind Connective.ofWord? <;> rfl

/-- Where `not` is taken out, it is there. -/
theorem Statement.partStrict_eq (tokens : List String) :
    partStrict tokens = some (part tokens) := by
  by_cases hnot : tokens.head? = some "not"
  · obtain ⟨rest, rfl⟩ := List.head?_eq_some_iff.1 hnot
    simp only [partStrict, part, List.head?_cons, takeOut?_cons, beq_self_eq_true, if_true,
      Option.map_some, Option.bind_eq_bind, Option.bind_some]
    cases rest.getLast?.bind Connective.ofWord? <;> rfl
  · have hother : ∀ rest, tokens = "not" :: rest → False := by
      rintro rest rfl
      exact hnot rfl
    rw [part_of_ne hother, partStrict, beq_false_of_ne hnot]
    simp only [Bool.false_eq_true, if_false, Option.bind_eq_bind, Option.bind_some]
    cases tokens.getLast?.bind Connective.ofWord? <;> rfl

/-- A statement is read without taking a token that is not there. -/
theorem Statement.readStrict_eq (condition line : String) :
    readStrict s condition line = some (read s condition line) := by
  refine (Strict.take_bind (partStrict_eq _) _).trans ?_
  unfold read
  dsimp only
  cases (part (s.tokens line)).2.1 with
  | nil => rfl
  | cons head rest => exact Strict.read_bind fun _ _ => rfl

/-- The statements of a condition are read without taking a token that is not there. -/
theorem Condition.readStatementsStrict_eq (condition : String) (body : List String) :
    readStatementsStrict s condition body = some (readStatements s condition body) := by
  refine Strict.guard_eq fun _ => ?_
  refine Strict.bind_eq (Strict.mapM_eq fun line _ => Statement.readStrict_eq condition line) ?_
  exact fun statements _ => Strict.guard_eq fun _ => rfl

/-! ## Phases -/

namespace AllowedAction

/-- The words before the first `then`, and those behind it, cut out by their places. -/
def cutAtThen (words : List String) : Option (List String × List String) :=
  match words.findIdx? (· == "then") with
  | some i => do
    let actions ← slice? words 0 i
    let responses ← slice? words (i + 1) words.length
    return (actions, responses)
  | none => do
    let responses ← slice? words words.length words.length
    return (words, responses)

/-- `AllowedAction.read`, read strictly. -/
def readStrict (s : Scope) (phase line : String) : Strict CompileError AllowedAction := do
  let (precondition, words) ← ConditionRef.readGate s phase (s.tokens line)
  let (actions, responses) ← cutAtThen words
  if actions.length != 1 || (actions.length < words.length && responses.isEmpty) then
    throw (.invalidComponent "phase" phase
      s!"allowed action line `{line}` must name exactly one action")
  let name ← Strict.entry actions 0
  let action ← s.performable name phase
  let responses : List Performable ←
    (responses.mapM fun name => s.performable name phase : Compiled _)
  return ⟨action, precondition, responses⟩

/-- A line is cut at the word `then` where it has this word. -/
theorem cutAtThen_eq (words : List String) :
    cutAtThen words =
      some (words.takeWhile (· != "then"), (words.dropWhile (· != "then")).drop 1) := by
  have hnot : (fun word : String => !(word != "then")) = (· == "then") := by
    funext word
    exact Bool.not_not _
  rw [List.takeWhile_eq_take_findIdx_not, List.dropWhile_eq_drop_findIdx_not, hnot, List.drop_drop]
  unfold cutAtThen
  cases hfind : words.findIdx? (· == "then") with
  | some i =>
    obtain ⟨hlt, rfl⟩ := List.findIdx?_eq_some_iff_findIdx_eq.1 hfind
    dsimp only
    rw [slice?_zero (Nat.le_of_lt hlt), slice?_length hlt]
    rfl
  | none =>
    have hlength := List.findIdx?_eq_none_iff_findIdx_eq.1 hfind
    dsimp only
    rw [slice?_length le_rfl, hlength, List.take_length, List.drop_length,
      List.drop_eq_nil_of_le (Nat.le_succ _)]
    rfl

/-- An allowed action is read without taking a word that is not there. -/
theorem readStrict_eq (phase line : String) :
    readStrict s phase line = some (read s phase line) := by
  refine Strict.read_bind fun (precondition, words) _ => ?_
  refine (Strict.take_bind (cutAtThen_eq words) _).trans ?_
  dsimp only
  have hlength : (words.takeWhile (· != "then")).length + (words.dropWhile (· != "then")).length =
      words.length := by
    rw [← List.length_append, List.takeWhile_append_dropWhile]
  generalize CompileError.invalidComponent _ _ _ = wrong
  generalize words.takeWhile (· != "then") = actions at hlength ⊢
  generalize words.dropWhile (· != "then") = after at hlength ⊢
  match actions with
  | [] => rfl
  | [name] =>
    -- Behind a `then` there has to be a name.
    have hcut : (decide (1 < words.length) && (after.drop 1).isEmpty) = (after.length == 1) := by
      rw [List.length_singleton] at hlength
      rw [Bool.eq_iff_iff]
      simp only [Bool.and_eq_true, decide_eq_true_eq, List.isEmpty_iff, List.drop_eq_nil_iff,
        beq_iff_eq]
      omega
    rw [List.length_singleton, bne_self_eq_false, Bool.false_or, hcut]
    refine Strict.guard_eq fun _ => (Strict.entry_bind rfl _).trans ?_
    exact Strict.read_bind fun action _ => Strict.read_bind fun responses _ => rfl
  | _ :: _ :: _ => rfl

end AllowedAction

namespace Phase

/-- `Phase.blocks`, read strictly. -/
def blocksStrict (s : Scope) (name : String) (body : List String) :
    Strict CompileError (List String × List String × List String) :=
  match body.findIdx? (· == "allow"), body.findIdx? (· == "end-allow") with
  | none, none => return (body, [], [])
  | some _, none =>
    throw (.missingKeyword (s.document ++ " phase `" ++ name ++ "`") "end-allow")
  | some opened, some closed =>
    if opened < closed then do
      let before ← slice? body 0 opened
      let inside ← slice? body (opened + 1) closed
      let after ← slice? body (closed + 1) body.length
      return (before, inside, after)
    else throw (.invalidComponent "phase" name "`end-allow` without `allow`")
  | none, some _ => throw (.invalidComponent "phase" name "`end-allow` without `allow`")

/-- `Phase.read`, read strictly. -/
def readStrict (s : Scope) (name : String) (body : List String) : Strict CompileError Phase := do
  let (before, inside, after) ← blocksStrict s name body
  let start : List Performable ← (before.mapM (readDo s name) : Compiled _)
  let allowed ← inside.mapM (AllowedAction.readStrict s name)
  let finish : List Performable ← (after.mapM (readDo s name) : Compiled _)
  return ⟨name, start, allowed, finish⟩

/-- The blocks of a phase are cut out at lines of its body. -/
theorem blocksStrict_eq (name : String) (body : List String) :
    blocksStrict s name body = some (blocks s name body) := by
  unfold blocksStrict blocks
  cases hopened : body.findIdx? (· == "allow") with
  | none => cases body.findIdx? (· == "end-allow") <;> rfl
  | some opened =>
    cases hclosed : body.findIdx? (· == "end-allow") with
    | none => rfl
    | some closed =>
      have hlt := (List.findIdx?_eq_some_iff_getElem.1 hclosed).1
      refine Strict.ite_eq (fun horder => ?_) fun _ => rfl
      rw [Strict.take_bind (slice?_zero (by omega)), Strict.take_bind (slice?_eq horder (by omega)),
        Strict.take_bind (slice?_length hlt)]
      rfl

/-- A phase is read without taking a line that is not there. -/
theorem readStrict_eq (name : String) (body : List String) :
    readStrict s name body = some (read s name body) := by
  refine Strict.bind_eq (blocksStrict_eq name body) fun (before, inside, after) _ => ?_
  refine Strict.read_bind fun start _ => ?_
  refine Strict.bind_eq (Strict.mapM_eq fun line _ => AllowedAction.readStrict_eq name line) ?_
  exact fun allowed _ => Strict.read_bind fun finish _ => rfl

end Phase

/-! ## The search for controlled actions that run themselves -/

namespace Graph

/-- `Graph.searchFrom`, read strictly: a controlled action is marked by its number. -/
def searchFromStrict (g : Graph) (trail left : List Nat) (id : ControlledId) :
    Strict ControlledId (List Nat) := do
  Strict.rely (id.index < g.controlled.length)
  if left.contains id.index then return left
  else
    match _h : trail.contains id.index, _hc : g.controlled[id.index]? with
    | true, _ => throw id
    | false, none => return id.index :: left
    | false, some c => do
      let left ← c.branches.foldlM (fun left branch =>
        match branch with
        | .controlled next => searchFromStrict g (trail ++ [id.index]) left next
        | .action _ => return left) left
      return id.index :: left
termination_by Trail.room g.controlled.length trail
decreasing_by
  have hlt : id.index < g.controlled.length := (List.getElem?_eq_some_iff.1 _hc).1
  exact Trail.room_append_lt hlt _h

/-- `Graph.findCycle?`, read strictly. -/
def findCycleStrict (g : Graph) : Option (Option ControlledId) := do
  let search := (List.range g.controlled.length).foldlM
    (fun left i => g.searchFromStrict [] left ⟨i⟩) []
  match ← search.run with
  | .error id => return some id
  | .ok _ => return none

variable {g : Graph}

/-- Where branches lead to controlled actions of the graph, the search marks nothing else. -/
theorem searchFromStrict_eq
    (hbranch : ∀ c ∈ g.controlled, ∀ p ∈ c.branches, p.Known g) {trail left : List Nat}
    {id : ControlledId} (hid : id.index < g.controlled.length) :
    g.searchFromStrict trail left id = some (g.searchFrom trail left id) := by
  induction hn : Trail.room g.controlled.length trail using Nat.strongRecOn
    generalizing trail left id with
  | ind n ih =>
  subst hn
  rw [searchFromStrict, searchFrom_eq, Strict.rely_bind hid]
  refine Strict.ite_eq (fun _ => rfl) fun _ => ?_
  split
  next hmem =>
    rw [hmem, if_pos rfl]
    rfl
  next hmem hc =>
    rw [hmem, if_neg Bool.false_ne_true, hc]
    rfl
  next c hmem hc =>
    rw [hmem, if_neg Bool.false_ne_true, hc]
    refine Strict.bind_eq (Strict.foldlM_eq (fun left branch hp => ?_) left) fun _ _ => rfl
    have hknown := hbranch c (List.mem_of_getElem? hc) branch hp
    cases branch with
    | action => rfl
    | controlled next =>
      exact ih _ (room_append_lt hc (Bool.eq_false_iff.1 hmem)) hknown rfl

/-- The search for controlled actions that run themselves marks only those of the graph. -/
theorem findCycleStrict_eq (hbranch : ∀ c ∈ g.controlled, ∀ p ∈ c.branches, p.Known g) :
    g.findCycleStrict = some g.findCycle? := by
  have hsearch : ∀ left, ∀ i ∈ List.range g.controlled.length,
      g.searchFromStrict [] left ⟨i⟩ = some (g.searchFrom [] left ⟨i⟩) :=
    fun _ _ hi => searchFromStrict_eq hbranch (List.mem_range.1 hi)
  unfold findCycleStrict findCycle?
  rw [Strict.foldlM_eq hsearch]
  cases (List.range g.controlled.length).foldlM (fun left i => g.searchFrom [] left ⟨i⟩) [] <;> rfl

/-! ## The components of a document -/

/-- `Graph.Records.ofDocument`, read strictly. -/
def Records.ofDocumentStrict (doc : Document) : Strict CompileError Records := do
  let actions ← Record.splitStrict doc "action" "end-action"
  let controlled ← Record.splitStrict doc "controlled-action" "end-controlled-action"
  let conditions ← Record.splitStrict doc "condition" "end-condition"
  let phases ← Record.splitStrict doc "phase" "end-phase"
  return ⟨actions, controlled, conditions, phases⟩

/-- `Graph.readCondition`, read strictly. -/
def readConditionStrict (s : Scope) (doc : Document) (r : Record) :
    Strict CompileError Condition := do
  let (name, inverted) ← Record.negatableName doc "condition" r.header
  let statements ← Condition.readStatementsStrict s name r.body
  return ⟨name, statements, inverted⟩

/-- `Graph.read`, read strictly. -/
def readStrict (s : Scope) (doc : Document) (records : Records) : Strict CompileError Graph := do
  let actions : List Action ← ((s.actions.zip records.actions).mapM fun (name, r) =>
    Action.read s doc name r : Compiled _)
  let controlled ← (s.controlled.zip records.controlled).mapM fun (name, r) =>
    ControlledAction.readStrict s doc name r
  let conditions ← records.conditions.mapM (readConditionStrict s doc)
  let phases ← (s.phases.zip records.phases).mapM fun (name, r) => Phase.readStrict s name r.body
  return { aliases := s.aliases, actions, controlled, conditions, phases }

/-- `Graph.compile`, read strictly. -/
def compileStrict (doc : Document) (layout : Layout) : Strict CompileError Graph := do
  let aliases ← Alias.readAllStrict doc
  let records ← Records.ofDocumentStrict doc
  let scope ← readScope doc layout aliases records
  let g ← readStrict scope doc records
  match ← g.findCycleStrict with
  | some id =>
    throw (.invalidComponent "controlled-action" (g.controlledLabel id)
      "runs itself through its branches")
  | none => return g

variable {doc : Document} {l : Layout}

/-- The records of a document are read without taking a line that is not there. -/
theorem Records.ofDocumentStrict_eq : ofDocumentStrict doc = some (ofDocument doc) := by
  refine Strict.bind_eq (Record.splitStrict_eq _ _) fun actions _ => ?_
  refine Strict.bind_eq (Record.splitStrict_eq _ _) fun controlled _ => ?_
  refine Strict.bind_eq (Record.splitStrict_eq _ _) fun conditions _ => ?_
  exact Strict.bind_eq (Record.splitStrict_eq _ _) fun phases _ => rfl

/-- A condition is read without taking a line that is not there. -/
theorem readConditionStrict_eq {s : Scope} (r : Record) :
    readConditionStrict s doc r = some (readCondition s doc r) :=
  Strict.read_bind fun (name, _) _ =>
    Strict.bind_eq (Condition.readStatementsStrict_eq name r.body) fun _ _ => rfl

/-- The components are read without taking a line that is not there. -/
theorem readStrict_eq {s : Scope} (records : Records) :
    readStrict s doc records = some (read s doc records) := by
  refine Strict.read_bind fun actions _ => ?_
  refine Strict.bind_eq (Strict.mapM_eq fun x _ => ControlledAction.readStrict_eq x.1 x.2) ?_
  intro controlled _
  refine Strict.bind_eq (Strict.mapM_eq fun r _ => readConditionStrict_eq r) fun conditions _ => ?_
  exact Strict.bind_eq (Strict.mapM_eq fun x _ => Phase.readStrict_eq x.1 x.2.body) fun _ _ => rfl

/-- A graph that has been read is searched: its branches lead to its own controlled actions. -/
theorem compileStrict_eq : compileStrict doc l = some (compile doc l) := by
  refine Strict.bind_eq Alias.readAllStrict_eq fun aliases _ => ?_
  refine Strict.bind_eq Records.ofDocumentStrict_eq fun records _ => ?_
  refine Strict.read_bind fun scope hscope => ?_
  refine Strict.bind_eq (readStrict_eq records) fun g hg => ?_
  have hclosed := closed_of_read (models_of_read hscope hg) hg
  have hsearch := findCycleStrict_eq fun _ hc _ hp => hclosed.branch_known hc hp
  refine (Strict.take_bind hsearch _).trans ?_
  cases g.findCycle? <;> rfl

end Graph

end HouseRules
