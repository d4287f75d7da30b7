import HouseRules.Proofs.Board.Instance
import HouseRules.Proofs.Graph.Names

/-!
# Closed graphs

A graph is closed for a layout when every number in it is that of a component, and every pile that a
parameter speaks of is declared by the layout (`Graph.Closed`). Compiled graphs are closed
(`Graph.closed_of_compile`): each reader gives only numbers of names in scope, and these are the
numbers of the components.

The readers of parameters see to it besides that a verb gets as many parameters as it takes, each of
a kind that does (`Verb.Admits`).
-/

namespace HouseRules

/-! ## Everything that a graph refers to -/

/-- The parameters in a question. -/
def Question.tokens : Question → List Token
  | .call _ tokens => tokens
  | .condition _ overrides => overrides.getD []

/-- Everything that a phase runs. -/
def Phase.performables (p : Phase) : List Performable :=
  p.start ++ p.allowed.flatMap (fun a => a.action :: a.responses) ++ p.finish

/-- What can be run is a component of the graph. -/
def Performable.Known (g : Graph) : Performable → Prop
  | .action id => id.index < g.actions.length
  | .controlled id => id.index < g.controlled.length

/-- The pile that a parameter speaks of is declared, and the phase that it names exists. -/
def Token.Closed (l : Layout) (phases : Nat) : Token → Prop
  | .pile selector | .top selector | .bottom selector | .contents selector =>
    l.Declares selector.slot
  | .piles slot => l.Declares slot
  | .phase id => id.index < phases
  | _ => True

namespace Graph

/-- Every parameter of a graph, those given to other conditions included. -/
def tokens (g : Graph) : List Token :=
  g.actions.flatMap (·.parameters) ++
    g.conditions.flatMap fun c => c.statements.flatMap (·.question.tokens)

/-- Every reference to a condition: of statements, of control lines and of allowed actions. -/
def conditionIds (g : Graph) : List ConditionId :=
  g.conditions.flatMap (·.references) ++ g.controlled.filterMap (fun c => c.condition.map (·.id)) ++
    g.phases.flatMap fun p => p.allowed.filterMap fun a => a.precondition.map (·.id)

/-- Everything that is run somewhere: branches, and what the phases run. -/
def performables (g : Graph) : List Performable :=
  g.controlled.flatMap (·.branches) ++ g.phases.flatMap (·.performables)

/-- Every number in a graph is that of a component, and every pile is declared. -/
structure Closed (g : Graph) (l : Layout) : Prop where
  tokens : ∀ token ∈ g.tokens, token.Closed l g.phases.length
  conditions : ∀ id ∈ g.conditionIds, id.index < g.conditions.length
  performables : ∀ p ∈ g.performables, p.Known g

end Graph

namespace Graph.Closed

variable {g : Graph} {l : Layout} (h : g.Closed l)

include h

/-- Statements ask conditions of the graph. -/
theorem reference_lt {c : Condition} (hc : c ∈ g.conditions) {st : Statement}
    (hst : st ∈ c.statements) {id : ConditionId} (hid : st.question.reference? = some id) :
    id.index < g.conditions.length := by
  refine h.conditions id (List.mem_append_left _ (List.mem_append_left _ ?_))
  exact List.mem_flatMap.2 ⟨c, hc, List.mem_filterMap.2 ⟨st, hst, hid⟩⟩

/-- Controlled actions ask conditions of the graph. -/
theorem gate_lt {c : ControlledAction} (hc : c ∈ g.controlled) {r : ConditionRef}
    (hr : c.condition = some r) : r.id.index < g.conditions.length := by
  refine h.conditions r.id (List.mem_append_left _ (List.mem_append_right _ ?_))
  exact List.mem_filterMap.2 ⟨c, hc, by rw [hr]; rfl⟩

/-- Controlled actions run what is in the graph. -/
theorem branch_known {c : ControlledAction} (hc : c ∈ g.controlled) {p : Performable}
    (hp : p ∈ c.branches) : p.Known g :=
  h.performables p (List.mem_append_left _ (List.mem_flatMap.2 ⟨c, hc, hp⟩))

/-- Allowed actions depend on conditions of the graph. -/
theorem precondition_lt {phase : Phase} (hphase : phase ∈ g.phases) {entry : AllowedAction}
    (hentry : entry ∈ phase.allowed) {r : ConditionRef} (hr : entry.precondition = some r) :
    r.id.index < g.conditions.length := by
  refine h.conditions r.id (List.mem_append_right _ (List.mem_flatMap.2 ⟨phase, hphase, ?_⟩))
  exact List.mem_filterMap.2 ⟨entry, hentry, by rw [hr]; rfl⟩

/-- Phases run what is in the graph. -/
theorem performable_known {phase : Phase} (hphase : phase ∈ g.phases) {p : Performable}
    (hp : p ∈ phase.performables) : p.Known g :=
  h.performables p (List.mem_append_right _ (List.mem_flatMap.2 ⟨phase, hphase, hp⟩))

end Graph.Closed

/-- A verb takes so many parameters, and each of them is of a kind that does. -/
structure Verb.Admits (verb : Verb) (tokens : List Token) : Prop where
  accepts : verb.signature.accepts tokens.length = true
  satisfies : ∀ i token, tokens[i]? = some token →
    ∃ kind, verb.signature.kindAt? i = some kind ∧ token.kind.satisfies kind = true

/-! ## Readers -/

variable {s : Scope} {g : Graph}

namespace Scope

/-- What is found to be run under a name is a component of the graph. -/
theorem Models.performable_known (hs : s.Models g) {name component : String} {p : Performable}
    (h : s.performable name component = .ok p) : p.Known g := by
  rw [hs.performable_eq, orFail_eq_ok, Graph.performable?, Option.or_eq_some_iff,
    Option.map_eq_some_iff] at h
  rcases h with ⟨id, hid, rfl⟩ | ⟨-, h⟩
  · obtain ⟨i, hi, rfl⟩ := Option.map_eq_some_iff.1 hid
    exact (List.findIdx?_eq_some_iff_getElem.1 hi).1
  · obtain ⟨id, hid, rfl⟩ := Option.map_eq_some_iff.1 h
    obtain ⟨i, hi, rfl⟩ := Option.map_eq_some_iff.1 hid
    exact (List.findIdx?_eq_some_iff_getElem.1 hi).1

/-- A condition that is found has its place among the conditions. -/
theorem Models.condition?_lt (hs : s.Models g) {name : String} {id : ConditionId}
    (h : s.condition? name = some id) : id.index < g.conditions.length := by
  rw [hs.condition?_eq] at h
  obtain ⟨i, hi, rfl⟩ := Option.map_eq_some_iff.1 h
  exact (List.findIdx?_eq_some_iff_getElem.1 hi).1

/-- A condition that must be found has its place among the conditions. -/
theorem Models.condition_lt (hs : s.Models g) {name component : String} {id : ConditionId}
    (h : s.condition name component = .ok id) : id.index < g.conditions.length :=
  hs.condition?_lt (orFail_eq_ok.1 h)

/-- A phase that must be found has its place among the phases. -/
theorem Models.phase_lt (hs : s.Models g) {name component : String} {id : PhaseId}
    (h : s.phase name component = .ok id) : id.index < g.phases.length := by
  rw [hs.phase_eq, orFail_eq_ok] at h
  obtain ⟨i, hi, rfl⟩ := Option.map_eq_some_iff.1 h
  exact (List.findIdx?_eq_some_iff_getElem.1 hi).1

/-- A pile that is found by name is declared. -/
theorem declares_of_slot {name component : String} {slot : Slot}
    (h : s.slot name component = .ok slot) : s.layout.Declares slot :=
  Layout.declares_of_slot? (orFail_eq_ok.1 h)

end Scope

namespace Token

/-- A selector is read only of a declared pile. -/
theorem readSelector_declares {component token rest : String} {selector : PileSelector}
    (h : readSelector s component token rest = .ok selector) :
    s.layout.Declares selector.slot := by
  unfold readSelector at h
  split at h
  · simp only [bind_ok, pure_ok] at h
    obtain ⟨_, -, slot, hslot, rfl⟩ := h
    exact Scope.declares_of_slot hslot
  · simp only [bind_ok, pure_ok] at h
    obtain ⟨_, -, _, -, slot, hslot, rfl⟩ := h
    exact Scope.declares_of_slot hslot

/-- A parameter with a dot is read only of a declared pile or a phase of the graph. -/
theorem readDotted_closed (hs : s.Models g) {component token form rest : String} {parsed : Token}
    (h : readDotted s component token form rest = .ok parsed) :
    parsed.Closed s.layout g.phases.length := by
  unfold readDotted at h
  split at h
  · simp only [bind_ok, pure_ok] at h
    obtain ⟨who, -, rfl⟩ := h
    trivial
  case h_6 =>
    simp only [guard_ok, bind_ok, pure_ok] at h
    obtain ⟨-, selector, hselector, rfl⟩ := h
    exact readSelector_declares hselector
  case h_7 =>
    simp only [bind_ok, pure_ok] at h
    obtain ⟨id, hid, rfl⟩ := h
    exact hs.phase_lt hid
  case h_8 => cases h
  all_goals
    simp only [bind_ok, pure_ok] at h
    obtain ⟨selector, hselector, rfl⟩ := h
    exact readSelector_declares hselector

/-- Every parameter is read only of a declared pile or a phase of the graph. -/
theorem read_closed (hs : s.Models g) {component token : String} {parsed : Token}
    (h : read s component token = .ok parsed) : parsed.Closed s.layout g.phases.length := by
  unfold read at h
  split at h
  · cases h
    trivial
  · split at h
    · cases h
      trivial
    · split at h
      · cases h
        trivial
      · split at h
        · exact readDotted_closed hs h
        · cases h

/-- Lists of parameters are read only of declared piles and phases of the graph. -/
theorem readAll_closed (hs : s.Models g) {component : String} {words : List String}
    {tokens : List Token} (h : readAll s component words = .ok tokens) :
    ∀ token ∈ tokens, token.Closed s.layout g.phases.length := by
  intro token htoken
  obtain ⟨word, -, hword⟩ := exists_of_mem_mapM h htoken
  exact read_closed hs hword

/-- A parameter that is read for a verb is of a kind that the verb takes there. -/
theorem readFor_ok {component : String} {verb : Verb} {i : Nat} {word : String} {token : Token}
    (h : readFor s component verb i word = .ok token) :
    read s component word = .ok token ∧
      ∃ kind, verb.signature.kindAt? i = some kind ∧ token.kind.satisfies kind = true := by
  simp only [readFor, bind_ok, orFail_eq_ok] at h
  obtain ⟨parsed, hparsed, kind, hkind, h⟩ := h
  split at h
  · cases pure_ok.1 h
    exact ⟨hparsed, kind, hkind, ‹_›⟩
  · cases h

/-- The parameters read for a verb are those that it admits. -/
theorem readParameters_admits {component : String} {verb : Verb} {words : List String}
    {tokens : List Token} (h : readParameters s component verb words = .ok tokens) :
    verb.Admits tokens := by
  unfold readParameters at h
  split at h
  next haccepts =>
    have hall := mapM_ok.1 h
    have hlength : words.length = tokens.length := by
      rw [← hall.length_eq, List.length_zipIdx]
    refine ⟨hlength ▸ haccepts, ?_⟩
    intro i token htoken
    obtain ⟨hi, rfl⟩ := List.getElem?_eq_some_iff.1 htoken
    have hread := hall.get (by rw [List.length_zipIdx, hlength]; exact hi) hi
    rw [List.get_eq_getElem, List.get_eq_getElem, List.getElem_zipIdx, Nat.zero_add] at hread
    exact (readFor_ok hread).2
  next => cases h

/-- Parameters of a verb are read only of declared piles and phases of the graph. -/
theorem readParameters_closed (hs : s.Models g) {component : String} {verb : Verb}
    {words : List String} {tokens : List Token}
    (h : readParameters s component verb words = .ok tokens) :
    ∀ token ∈ tokens, token.Closed s.layout g.phases.length := by
  intro token htoken
  unfold readParameters at h
  split at h
  · obtain ⟨word, -, hword⟩ := exists_of_mem_mapM h htoken
    exact read_closed hs (readFor_ok hword).1
  · cases h

end Token

/-! ## Components -/

/-- A question that is read speaks of declared piles and conditions of the graph, and a verb in it
gets what it takes. -/
theorem Question.read_ok (hs : s.Models g) {condition line head : String} {rest : List String}
    {q : Question} (h : read s condition line head rest = .ok q) :
    (∀ token ∈ q.tokens, token.Closed s.layout g.phases.length) ∧
      (∀ id, q.reference? = some id → id.index < g.conditions.length) ∧
      ∀ verb tokens, q = .call verb tokens → verb.Admits tokens := by
  unfold read at h
  split at h
  next verb =>
    split at h
    · obtain ⟨tokens, htokens, rfl⟩ := map_ok.1 h
      refine ⟨Token.readParameters_closed hs htokens, nofun, ?_⟩
      rintro _ _ ⟨⟩
      exact Token.readParameters_admits htokens
    · cases h
  next =>
    split at h
    next id hid =>
      have hlt := hs.condition?_lt hid
      split at h
      · cases h
        refine ⟨nofun, ?_, nofun⟩
        rintro _ ⟨⟩
        exact hlt
      · obtain ⟨tokens, htokens, rfl⟩ := map_ok.1 h
        refine ⟨Token.readAll_closed hs htokens, ?_, nofun⟩
        rintro _ ⟨⟩
        exact hlt
    next => cases h

/-- Every statement of a condition asks a question that was read. -/
theorem Condition.readStatements_ok {condition : String} {body : List String}
    {statements : List Statement} (h : readStatements s condition body = .ok statements) :
    ∀ st ∈ statements, ∃ line head rest,
      Question.read s condition line head rest = .ok st.question := by
  simp only [readStatements, guard_ok, bind_ok, pure_ok] at h
  obtain ⟨-, _, hread, -, rfl⟩ := h
  intro st hst
  obtain ⟨line, -, hline⟩ := exists_of_mem_mapM hread hst
  unfold Statement.read at hline
  dsimp only at hline
  split at hline
  · cases hline
  · obtain ⟨q, hq, rfl⟩ := map_ok.1 hline
    exact ⟨line, _, _, hq⟩

/-- A condition that gates a line is one of the graph. -/
theorem ConditionRef.readGate_lt (hs : s.Models g) {component : String} {words rest : List String}
    {gate : Option ConditionRef} (h : readGate s component words = .ok (gate, rest)) :
    ∀ r ∈ gate, r.id.index < g.conditions.length := by
  unfold readGate at h
  split at h
  · cases h
  · cases h
    nofun
  all_goals
    simp only [bind_ok, pure_ok] at h
    obtain ⟨id, hid, heq⟩ := h
    cases heq
    rintro _ ⟨⟩
    exact hs.condition_lt hid

/-- A control line is read only with a condition and branches of the graph. -/
theorem ControlledAction.readControl_known (hs : s.Models g) {component line : String}
    {gate : Option ConditionRef} {onTrue : Performable} {onFalse : Option Performable}
    (h : readControl s component line = .ok (gate, onTrue, onFalse)) :
    (∀ r ∈ gate, r.id.index < g.conditions.length) ∧ onTrue.Known g ∧
      ∀ p ∈ onFalse, p.Known g := by
  simp only [readControl, bind_ok, guard_ok] at h
  obtain ⟨⟨gate, names⟩, hgate, -, h⟩ := h
  split at h
  · cases h
  · simp only [bind_ok, pure_ok] at h
    obtain ⟨first, hfirst, others, hothers, heq⟩ := h
    cases heq
    refine ⟨ConditionRef.readGate_lt hs hgate, hs.performable_known hfirst, ?_⟩
    intro p hp
    obtain ⟨name, -, hname⟩ := exists_of_mem_mapM hothers (List.mem_of_mem_head? hp)
    exact hs.performable_known hname

/-- An allowed action is read only with a condition, an action and responses of the graph. -/
theorem AllowedAction.read_known (hs : s.Models g) {phase line : String} {entry : AllowedAction}
    (h : read s phase line = .ok entry) :
    (∀ r ∈ entry.precondition, r.id.index < g.conditions.length) ∧ entry.action.Known g ∧
      ∀ p ∈ entry.responses, p.Known g := by
  simp only [read, bind_ok] at h
  obtain ⟨⟨gate, words⟩, hgate, h⟩ := h
  split at h
  · simp only [guard_ok, bind_ok, pure_ok] at h
    obtain ⟨-, action, haction, responses, hresponses, rfl⟩ := h
    refine ⟨ConditionRef.readGate_lt hs hgate, hs.performable_known haction, ?_⟩
    intro p hp
    obtain ⟨name, -, hname⟩ := exists_of_mem_mapM hresponses hp
    exact hs.performable_known hname
  · cases h

/-- A line of what a phase does is read only as something to run of the graph. -/
theorem Phase.readDo_known (hs : s.Models g) {phase line : String} {p : Performable}
    (h : readDo s phase line = .ok p) : p.Known g := by
  unfold readDo at h
  split at h
  · exact hs.performable_known h
  · cases h

/-- Whatever a phase runs is a component of the graph. -/
theorem Phase.performables_known (hs : s.Models g) {name : String} {body : List String} {p : Phase}
    (h : read s name body = .ok p) : ∀ run ∈ p.performables, run.Known g := by
  obtain ⟨-, before, inside, after, hstart, hallowed, hfinish⟩ := read_ok h
  intro run hrun
  simp only [performables, List.mem_append, List.mem_flatMap, List.mem_cons] at hrun
  rcases hrun with (hrun | ⟨entry, hentry, hrun⟩) | hrun
  · obtain ⟨line, -, hline⟩ := exists_of_mem_mapM hstart hrun
    exact readDo_known hs hline
  · obtain ⟨line, -, hline⟩ := exists_of_mem_mapM hallowed hentry
    obtain ⟨-, haction, hresponses⟩ := AllowedAction.read_known hs hline
    rcases hrun with rfl | hrun
    · exact haction
    · exact hresponses run hrun
  · obtain ⟨line, -, hline⟩ := exists_of_mem_mapM hfinish hrun
    exact readDo_known hs hline

/-! ## Compiled graphs -/

namespace Graph

/-- A call that a graph makes: of an action, or of a statement of a condition. -/
def Calls (g : Graph) (verb : Verb) (tokens : List Token) : Prop :=
  (∃ a ∈ g.actions, a.verb = verb ∧ a.parameters = tokens) ∨
    ∃ c ∈ g.conditions, ∃ st ∈ c.statements, st.question = .call verb tokens

/-- The parameters of a call are among those of the graph. -/
theorem Calls.mem_tokens {verb : Verb} {tokens : List Token} (h : g.Calls verb tokens) :
    ∀ token ∈ tokens, token ∈ g.tokens := by
  intro token htoken
  rw [Graph.tokens, List.mem_append]
  rcases h with ⟨a, ha, rfl, rfl⟩ | ⟨c, hc, st, hst, hquestion⟩
  · exact .inl (List.mem_flatMap.2 ⟨a, ha, htoken⟩)
  · refine .inr (List.mem_flatMap.2 ⟨c, hc, List.mem_flatMap.2 ⟨st, hst, ?_⟩⟩)
    rw [hquestion]
    exact htoken

variable {doc : Document} {records : Records}

/-- What is read in a scope with the names of the graph is closed. -/
theorem closed_of_read (hs : s.Models g) (h : read s doc records = .ok g) :
    g.Closed s.layout := by
  obtain ⟨-, hactions, hcontrolled, hconditions, hphases⟩ := read_ok h
  refine ⟨?_, ?_, ?_⟩
  · intro token htoken
    rw [tokens, List.mem_append, List.mem_flatMap, List.mem_flatMap] at htoken
    rcases htoken with ⟨a, ha, htoken⟩ | ⟨c, hc, htoken⟩
    · obtain ⟨_, -, hread⟩ := exists_of_mem_forall₂ hactions ha
      obtain ⟨-, words, hwords⟩ := Action.read_ok hread
      exact Token.readParameters_closed hs hwords token htoken
    · obtain ⟨_, -, hread⟩ := exists_of_mem_forall₂ hconditions hc
      obtain ⟨st, hst, htoken⟩ := List.mem_flatMap.1 htoken
      obtain ⟨line, head, rest, hq⟩ :=
        Condition.readStatements_ok (readCondition_ok hread).2 st hst
      exact (Question.read_ok hs hq).1 token htoken
  · intro id hid
    rw [conditionIds, List.mem_append, List.mem_append, List.mem_flatMap, List.mem_filterMap,
      List.mem_flatMap] at hid
    rcases hid with (⟨c, hc, hid⟩ | ⟨c, hc, hid⟩) | ⟨p, hp, hid⟩
    · obtain ⟨_, -, hread⟩ := exists_of_mem_forall₂ hconditions hc
      obtain ⟨st, hst, hid⟩ := List.mem_filterMap.1 hid
      obtain ⟨line, head, rest, hq⟩ :=
        Condition.readStatements_ok (readCondition_ok hread).2 st hst
      exact (Question.read_ok hs hq).2.1 id hid
    · obtain ⟨_, -, hread⟩ := exists_of_mem_forall₂ hcontrolled hc
      obtain ⟨-, line, hline⟩ := ControlledAction.read_ok hread
      obtain ⟨r, hr, rfl⟩ := Option.map_eq_some_iff.1 hid
      exact (ControlledAction.readControl_known hs hline).1 r hr
    · obtain ⟨_, -, hread⟩ := exists_of_mem_forall₂ hphases hp
      obtain ⟨-, _, inside, _, -, hallowed, -⟩ := Phase.read_ok hread
      obtain ⟨entry, hentry, hid⟩ := List.mem_filterMap.1 hid
      obtain ⟨r, hr, rfl⟩ := Option.map_eq_some_iff.1 hid
      obtain ⟨line, -, hline⟩ := exists_of_mem_mapM hallowed hentry
      exact (AllowedAction.read_known hs hline).1 r hr
  · intro p hp
    rw [performables, List.mem_append, List.mem_flatMap, List.mem_flatMap] at hp
    rcases hp with ⟨c, hc, hp⟩ | ⟨phase, hphase, hp⟩
    · obtain ⟨_, -, hread⟩ := exists_of_mem_forall₂ hcontrolled hc
      obtain ⟨-, line, hline⟩ := ControlledAction.read_ok hread
      obtain ⟨-, htrue, hfalse⟩ := ControlledAction.readControl_known hs hline
      rcases List.mem_cons.1 hp with rfl | hp
      · exact htrue
      · exact hfalse p (Option.mem_toList.1 hp)
    · obtain ⟨_, -, hread⟩ := exists_of_mem_forall₂ hphases hphase
      exact Phase.performables_known hs hread p hp

/-- Compiled graphs are closed. -/
theorem closed_of_compile {l : Layout} (h : compile doc l = .ok g) : g.Closed l := by
  obtain ⟨aliases, records, s, -, hs, hg⟩ := compile_ok h
  obtain ⟨-, rfl, -⟩ := readScope_ok hs
  exact closed_of_read (models_of_read hs hg) hg

/-- Compiled graphs call verbs with parameters that these admit. -/
theorem admits_of_compile {l : Layout} {verb : Verb} {tokens : List Token}
    (h : compile doc l = .ok g) (hcall : g.Calls verb tokens) : verb.Admits tokens := by
  obtain ⟨aliases, records, s, -, hs, hg⟩ := compile_ok h
  obtain ⟨-, hactions, -, hconditions, -⟩ := read_ok hg
  rcases hcall with ⟨a, ha, rfl, rfl⟩ | ⟨c, hc, st, hst, hquestion⟩
  · obtain ⟨_, -, hread⟩ := exists_of_mem_forall₂ hactions ha
    obtain ⟨-, words, hwords⟩ := Action.read_ok hread
    exact Token.readParameters_admits hwords
  · obtain ⟨_, -, hread⟩ := exists_of_mem_forall₂ hconditions hc
    obtain ⟨line, head, rest, hq⟩ := Condition.readStatements_ok (readCondition_ok hread).2 st hst
    exact (Question.read_ok (models_of_read hs hg) hq).2.2 verb tokens hquestion

end Graph

end HouseRules
