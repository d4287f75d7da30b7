import HouseRules.Graph.Reader
import HouseRules.Proofs.Document

/-!
# Names and numbers

The names of all components are collected before any component is read, and a name's number is its
place among them. Here it is shown that the numbers given out beforehand are those that the
components have in the end: the names in scope are those of the graph (`Scope.Models`), so that a
reference is read as what the graph says its name stands for, wherever it is declared. The graph is
thus read in a scope that is made of the graph itself (`Graph.read_scope`).

The components of each kind are those whose openers stand in the document, line by line and under
the names in their headers (`Graph.Declared`), and a name stands for one of them at most
(`Graph.Distinct`). Finding by name is then the converse of reading the name of a number
(`Graph.Distinct.performable?_eq_some`).
-/

namespace HouseRules

/-! ## Records -/

namespace Record

/-- A record that is read has for a header what stands behind the keyword of its line. -/
theorem readAt_ok {doc : Document} {opener closer : String} {line : Nat} {r : Record × Bool}
    (h : readAt doc opener closer line = .ok r) : r.1.header = doc.paramsAt line := by
  simp only [readAt, bind_ok, pure_ok] at h
  obtain ⟨header, hheader, close, -, block, -, rfl⟩ := h
  exact (Document.requireParamsAt_ok.1 hheader).1.symm

/-- There is one record for each line that opens one, in the order of lines. -/
theorem split_ok {doc : Document} {opener closer : String} {records : List Record}
    (h : split doc opener closer = .ok records) :
    records.map (·.header) = (doc.positions opener).map doc.paramsAt := by
  simp only [split, bind_ok, guard_ok, pure_ok] at h
  obtain ⟨read, hread, -, rfl⟩ := h
  rw [List.map_map, eq_comm, ← forall₂_eq_iff]
  exact (mapM_ok.1 hread).imp fun _ _ hr => (readAt_ok hr).symm

/-- A header that may be negated is a name with or without `not` before it. -/
theorem negatableName_ok {doc : Document} {keyword header name : String} {negated : Bool} :
    negatableName doc keyword header = .ok (name, negated) ↔
      Text.words header = if negated then ["not", name] else [name] := by
  unfold negatableName
  split
  next given heq => cases negated <;> simp [heq]
  next given heq => cases negated <;> simp [heq]
  next hone htwo =>
    refine ⟨nofun, fun h => ?_⟩
    cases negated
    · exact absurd h (hone name)
    · exact absurd h (htwo name)

/-- A plain header is a name. -/
theorem plainName_ok {doc : Document} {keyword header name : String} :
    plainName doc keyword header = .ok name ↔ Text.words header = [name] := by
  simp only [plainName, bind_ok]
  constructor
  · rintro ⟨⟨given, negated⟩, hgiven, h⟩
    cases negated
    · cases pure_ok.1 h
      exact negatableName_ok.1 hgiven
    · cases h
  · exact fun h => ⟨(name, false), negatableName_ok.2 h, rfl⟩

end Record

namespace Graph

/-! ## Declaring names -/

/-- Names declared for records are read from their headers, and all differ. -/
theorem declare_ok {kind : String} {nameIn : String → Compiled String} {records : List Record}
    {names : List String} (h : declare kind nameIn records = .ok names) :
    List.Forall₂ (fun header name => nameIn header = .ok name) (records.map (·.header)) names ∧
      names.Nodup := by
  unfold declare at h
  constructor
  · obtain ⟨new, rfl, hall⟩ :=
      foldlM_append_ok (fun r name => nameIn r.header = .ok name) (fun names r names' hstep => by
        simp only [bind_ok, guard_ok, pure_ok] at hstep
        obtain ⟨name, hname, -, rfl⟩ := hstep
        exact ⟨name, rfl, hname⟩) h
    rwa [List.forall₂_map_left_iff]
  · refine foldlM_keeps List.Nodup (fun names r names' hnames hstep => ?_) List.nodup_nil h
    simp only [bind_ok, guard_ok, pure_ok] at hstep
    obtain ⟨name, -, hnew, rfl⟩ := hstep
    refine List.nodup_append.2 ⟨hnames, List.pairwise_singleton .., ?_⟩
    rintro a ha b hb rfl
    rw [List.mem_singleton.1 hb] at ha
    exact hnew (List.contains_iff_mem.2 ha)

/-- A controlled action is named by one word that no action is named by. -/
theorem controlledName_ok {doc : Document} {actions : List String} {header name : String} :
    controlledName doc actions header = .ok name ↔
      Text.words header = [name] ∧ name ∉ actions := by
  simp only [controlledName, bind_ok, guard_ok, pure_ok, Record.plainName_ok,
    List.contains_iff_mem]
  constructor
  · rintro ⟨_, hname, hnew, rfl⟩
    exact ⟨hname, hnew⟩
  · exact fun h => ⟨name, h.1, h.2, rfl⟩

/-- The name of a condition is that of its header, with or without negation. -/
theorem conditionName_ok {doc : Document} {header name : String}
    (h : conditionName doc header = .ok name) :
    ∃ negated, Record.negatableName doc "condition" header = .ok (name, negated) := by
  simp only [conditionName, bind_ok, guard_ok, pure_ok] at h
  obtain ⟨⟨_, negated⟩, hname, -, rfl⟩ := h
  exact ⟨negated, hname⟩

/-- A header gives one name. -/
theorem negatableName_unique (doc : Document) :
    Relator.RightUnique fun header name =>
      ∃ negated, Record.negatableName doc "condition" header = .ok (name, negated) := by
  rintro header name name' ⟨negated, h⟩ ⟨negated', h'⟩
  rw [h] at h'
  cases h'
  rfl

end Graph

/-! ## Reading components -/

variable {s : Scope} {doc : Document} {r : Record}

/-- An action is read under the name it is read for, with the parameters of its verb. -/
theorem Action.read_ok {name : String} {a : Action} (h : Action.read s doc name r = .ok a) :
    a.name = name ∧ ∃ words, Token.readParameters s name a.verb words = .ok a.parameters := by
  unfold Action.read at h
  split at h
  · cases h
  · split at h
    · cases h
    · simp only [bind_ok, pure_ok] at h
      obtain ⟨verb, -, parameters, hparameters, rfl⟩ := h
      exact ⟨rfl, _, hparameters⟩

/-- A controlled action is read under the name it is read for, from one control line. -/
theorem ControlledAction.read_ok {name : String} {c : ControlledAction}
    (h : ControlledAction.read s doc name r = .ok c) :
    c.name = name ∧ ∃ line, readControl s name line = .ok (c.condition, c.onTrue, c.onFalse) := by
  unfold ControlledAction.read at h
  split at h
  · cases h
  · simp only [bind_ok, pure_ok] at h
    obtain ⟨⟨condition, onTrue, onFalse⟩, hcontrol, ⟨repetition, description⟩, -, rfl⟩ := h
    exact ⟨rfl, _, hcontrol⟩

/-- A condition is read under the name of its header, from the statements of its body. -/
theorem Graph.readCondition_ok {c : Condition} (h : readCondition s doc r = .ok c) :
    Record.negatableName doc "condition" r.header = .ok (c.name, c.inverted) ∧
      Condition.readStatements s c.name r.body = .ok c.statements := by
  simp only [readCondition, bind_ok, pure_ok] at h
  obtain ⟨⟨name, inverted⟩, hname, statements, hstatements, rfl⟩ := h
  exact ⟨hname, hstatements⟩

/-- A phase is read under the name it is read for, from lines before, inside and after its allowed
actions. -/
theorem Phase.read_ok {name : String} {body : List String} {p : Phase}
    (h : Phase.read s name body = .ok p) :
    p.name = name ∧ ∃ before inside after : List String,
      before.mapM (readDo s name) = .ok p.start ∧
      inside.mapM (AllowedAction.read s name) = .ok p.allowed ∧
      after.mapM (readDo s name) = .ok p.finish := by
  simp only [Phase.read, bind_ok, pure_ok] at h
  obtain ⟨⟨before, inside, after⟩, -, start, hstart, allowed, hallowed, finish, hfinish, rfl⟩ := h
  exact ⟨rfl, before, inside, after, hstart, hallowed, hfinish⟩

/-! ## The scope of a graph -/

/-- The names in scope are those of the components of a graph. -/
structure Scope.Models (s : Scope) (g : Graph) : Prop where
  aliases : s.aliases = g.aliases
  actions : s.actions = g.actions.map (·.name)
  controlled : s.controlled = g.controlled.map (·.name)
  conditions : s.conditions = g.conditions.map (·.name)
  phases : s.phases = g.phases.map (·.name)

namespace Graph

variable {g : Graph} {l : Layout} {records : Records}

/-- Each component is read from its record under its name. -/
theorem read_ok (h : read s doc records = .ok g) :
    g.aliases = s.aliases ∧
      List.Forall₂ (fun x a => Action.read s doc x.1 x.2 = .ok a)
        (s.actions.zip records.actions) g.actions ∧
      List.Forall₂ (fun x c => ControlledAction.read s doc x.1 x.2 = .ok c)
        (s.controlled.zip records.controlled) g.controlled ∧
      List.Forall₂ (fun r c => readCondition s doc r = .ok c) records.conditions g.conditions ∧
      List.Forall₂ (fun x p => Phase.read s x.1 x.2.body = .ok p)
        (s.phases.zip records.phases) g.phases := by
  simp only [read, bind_ok, pure_ok, mapM_ok] at h
  obtain ⟨actions, hactions, controlled, hcontrolled, conditions, hconditions, phases, hphases,
    rfl⟩ := h
  exact ⟨rfl, hactions, hcontrolled, hconditions, hphases⟩

/-- The names in scope are read from the headers of the records, and those of one kind differ. -/
theorem readScope_ok {aliases : List Alias} (h : readScope doc l aliases records = .ok s) :
    s.document = doc.identity ∧ s.layout = l ∧ s.aliases = aliases ∧
      declare "action" (Record.plainName doc "action") records.actions = .ok s.actions ∧
      declare "controlled-action" (controlledName doc s.actions) records.controlled =
        .ok s.controlled ∧
      declare "condition" (conditionName doc) records.conditions = .ok s.conditions ∧
      declare "phase" (Record.plainName doc "phase") records.phases = .ok s.phases := by
  simp only [readScope, bind_ok, pure_ok] at h
  obtain ⟨actions, hactions, controlled, hcontrolled, conditions, hconditions, phases, hphases,
    rfl⟩ := h
  exact ⟨rfl, rfl, rfl, hactions, hcontrolled, hconditions, hphases⟩

/-- Components that are read from records under given names have these names. -/
theorem names_eq {α : Type} {nameOf : α → String} {names : List String} {rs : List Record}
    {as : List α} (hlength : names.length = rs.length)
    (h : List.Forall₂ (fun x a => nameOf a = x.1) (names.zip rs) as) :
    names = as.map nameOf := by
  have hnames := forall₂_eq_iff.1 (h.imp fun _ _ => Eq.symm)
  rwa [List.map_fst_zip (Nat.le_of_eq hlength)] at hnames

/-- Declaring records gives each of them a name. -/
theorem length_of_declare {kind : String} {nameIn : String → Compiled String}
    {rs : List Record} {names : List String} (h : declare kind nameIn rs = .ok names) :
    names.length = rs.length := by
  rw [← (declare_ok h).1.length_eq, List.length_map]

/-- The names collected beforehand are those of the components. -/
theorem models_of_read {aliases : List Alias} (hs : readScope doc l aliases records = .ok s)
    (hg : read s doc records = .ok g) : s.Models g := by
  obtain ⟨-, -, -, hactions, hcontrolled, hconditions, hphases⟩ := readScope_ok hs
  obtain ⟨galiases, gactions, gcontrolled, gconditions, gphases⟩ := read_ok hg
  refine ⟨galiases.symm, ?_, ?_, ?_, ?_⟩
  · exact names_eq (length_of_declare hactions) (gactions.imp fun _ _ h => (Action.read_ok h).1)
  · exact names_eq (length_of_declare hcontrolled)
      (gcontrolled.imp fun _ _ h => (ControlledAction.read_ok h).1)
  · refine List.right_unique_forall₂' (negatableName_unique doc)
      ((declare_ok hconditions).1.imp fun _ _ => conditionName_ok) ?_
    rw [List.forall₂_map_left_iff, List.forall₂_map_right_iff]
    exact gconditions.imp fun _ c h => ⟨c.inverted, (readCondition_ok h).1⟩
  · exact names_eq (length_of_declare hphases) (gphases.imp fun _ _ h => (Phase.read_ok h).1)

/-- The scope that the components of a graph make up. -/
def scope (g : Graph) (document : String) (l : Layout) : Scope where
  document := document
  layout := l
  aliases := g.aliases
  actions := g.actions.map (·.name)
  controlled := g.controlled.map (·.name)
  conditions := g.conditions.map (·.name)
  phases := g.phases.map (·.name)

/-- The scope of a graph knows its components by their places. -/
theorem scope_models (g : Graph) (document : String) (l : Layout) : (g.scope document l).Models g :=
  ⟨rfl, rfl, rfl, rfl, rfl⟩

end Graph

namespace Scope.Models

variable {g : Graph}

/-- A scope with the names of a graph is the graph's. -/
theorem eq_scope (h : s.Models g) : s = g.scope s.document s.layout := by
  obtain ⟨document, layout, aliases, actions, controlled, conditions, phases⟩ := s
  obtain ⟨rfl, rfl, rfl, rfl, rfl⟩ := h
  rfl

/-- Looking up a name among names is looking for the component so named. -/
theorem place?_eq {α : Type} (nameOf : α → String) (as : List α) (name : String) :
    place? (as.map nameOf) name = as.findIdx? (nameOf · == name) := by
  rw [place?, List.findIdx?_map]
  rfl

/-- What a name stands for in scope is what it stands for in the graph. -/
theorem performable_eq (h : s.Models g) (name component : String) :
    s.performable name component =
      orFail (unknown "action" name component) (g.performable? name) := by
  simp only [performable, Graph.performable?, Graph.actionNamed?, Graph.controlledNamed?, h.actions,
    h.controlled, place?_eq, Option.map_map]
  rfl

/-- The scope knows a condition by the place where the graph finds it. -/
theorem condition?_eq (h : s.Models g) (name : String) :
    s.condition? name = g.conditionNamed? name := by
  rw [condition?, Graph.conditionNamed?, h.conditions, place?_eq]

/-- The scope knows a phase by the place where the graph finds it, and fails if there is none. -/
theorem phase_eq (h : s.Models g) (name component : String) :
    s.phase name component = orFail (unknown "phase" name component) (g.phaseNamed? name) := by
  rw [phase, Graph.phaseNamed?, h.phases, place?_eq]

end Scope.Models

/-- The words of the header that declares a condition. -/
def Condition.headerWords (c : Condition) : List String :=
  if c.inverted then ["not", c.name] else [c.name]

/-! ## Finding by name -/

namespace Graph

variable {g : Graph}

/-- No name stands for two components. -/
structure Distinct (g : Graph) : Prop where
  actions : (g.actions.map (·.name)).Nodup
  controlled : (g.controlled.map (·.name)).Nodup
  conditions : (g.conditions.map (·.name)).Nodup
  phases : (g.phases.map (·.name)).Nodup
  performables : ∀ a ∈ g.actions, ∀ c ∈ g.controlled, a.name ≠ c.name

/-- Among different names the place of a name is where it stands. -/
theorem findIdx?_name_eq_some {α : Type} {nameOf : α → String} {as : List α}
    (hnodup : (as.map nameOf).Nodup) {name : String} {i : Nat} :
    as.findIdx? (nameOf · == name) = some i ↔ ∃ a, as[i]? = some a ∧ nameOf a = name := by
  rw [List.findIdx?_eq_some_iff_getElem]
  constructor
  · rintro ⟨hi, hname, -⟩
    exact ⟨as[i], List.getElem?_eq_getElem hi, eq_of_beq hname⟩
  · rintro ⟨a, ha, rfl⟩
    obtain ⟨hi, rfl⟩ := List.getElem?_eq_some_iff.1 ha
    refine ⟨hi, beq_self_eq_true _, ?_⟩
    intro j hj heq
    have hother := List.pairwise_iff_getElem.1 hnodup j i (by simp; omega) (by simpa) hj
    exact hother (by simpa using heq)

namespace Distinct

variable (h : g.Distinct) {name : String}

include h

/-- An action is found exactly by its name. -/
theorem actionNamed?_eq_some {id : ActionId} :
    g.actionNamed? name = some id ↔ ∃ a, g.actions[id.index]? = some a ∧ a.name = name := by
  rw [← findIdx?_name_eq_some h.actions, actionNamed?, Option.map_eq_some_iff]
  exact ⟨fun ⟨_, hi, heq⟩ => heq ▸ hi, fun hi => ⟨_, hi, rfl⟩⟩

/-- A controlled action is found exactly by its name. -/
theorem controlledNamed?_eq_some {id : ControlledId} :
    g.controlledNamed? name = some id ↔
      ∃ c, g.controlled[id.index]? = some c ∧ c.name = name := by
  rw [← findIdx?_name_eq_some h.controlled, controlledNamed?, Option.map_eq_some_iff]
  exact ⟨fun ⟨_, hi, heq⟩ => heq ▸ hi, fun hi => ⟨_, hi, rfl⟩⟩

/-- A condition is found exactly by its name. -/
theorem conditionNamed?_eq_some {id : ConditionId} :
    g.conditionNamed? name = some id ↔
      ∃ c, g.conditions[id.index]? = some c ∧ c.name = name := by
  rw [← findIdx?_name_eq_some h.conditions, conditionNamed?, Option.map_eq_some_iff]
  exact ⟨fun ⟨_, hi, heq⟩ => heq ▸ hi, fun hi => ⟨_, hi, rfl⟩⟩

/-- A phase is found exactly by its name. -/
theorem phaseNamed?_eq_some {id : PhaseId} :
    g.phaseNamed? name = some id ↔ ∃ p, g.phases[id.index]? = some p ∧ p.name = name := by
  rw [← findIdx?_name_eq_some h.phases, phaseNamed?, Option.map_eq_some_iff]
  exact ⟨fun ⟨_, hi, heq⟩ => heq ▸ hi, fun hi => ⟨_, hi, rfl⟩⟩

/-- A name stands for what has that name, be it an action or a controlled action. -/
theorem performable?_eq_some {p : Performable} :
    g.performable? name = some p ↔ g.nameOf p = .ok name := by
  rw [performable?, Option.or_eq_some_iff, Option.map_eq_some_iff, Option.map_eq_none_iff]
  cases p with
  | action id =>
    simp only [nameOf, action, bind_ok, orFail_eq_ok, pure_ok, ← h.actionNamed?_eq_some]
    constructor
    · rintro (⟨_, hid, heq⟩ | ⟨-, hid⟩)
      · cases heq
        exact hid
      · obtain ⟨_, -, heq⟩ := Option.map_eq_some_iff.1 hid
        cases heq
    · exact fun hid => .inl ⟨id, hid, rfl⟩
  | controlled id =>
    simp only [nameOf, controlledAction, bind_ok, orFail_eq_ok, pure_ok,
      ← h.controlledNamed?_eq_some]
    constructor
    · rintro (⟨_, -, heq⟩ | ⟨-, hid⟩)
      · cases heq
      · obtain ⟨_, hid, heq⟩ := Option.map_eq_some_iff.1 hid
        cases heq
        exact hid
    · intro hid
      refine .inr ⟨?_, Option.map_eq_some_iff.2 ⟨id, hid, rfl⟩⟩
      -- An action of the same name would be a second meaning of it.
      obtain ⟨c, hc, rfl⟩ := h.controlledNamed?_eq_some.1 hid
      refine Option.eq_none_iff_forall_ne_some.2 fun other hother => ?_
      obtain ⟨a, ha, hname⟩ := h.actionNamed?_eq_some.1 hother
      exact h.performables a (List.mem_of_getElem? ha) c (List.mem_of_getElem? hc) hname

end Distinct

/-! ## Compiled graphs -/

/-- The components are those that a document declares, in the order of its lines and under the names
in its headers. -/
structure Declared (g : Graph) (doc : Document) : Prop where
  actions : List.Forall₂ (fun line (a : Action) => Text.words (doc.paramsAt line) = [a.name])
    (doc.positions "action") g.actions
  controlled : List.Forall₂
    (fun line (c : ControlledAction) => Text.words (doc.paramsAt line) = [c.name])
    (doc.positions "controlled-action") g.controlled
  conditions : List.Forall₂
    (fun line (c : Condition) => Text.words (doc.paramsAt line) = c.headerWords)
    (doc.positions "condition") g.conditions
  phases : List.Forall₂ (fun line (p : Phase) => Text.words (doc.paramsAt line) = [p.name])
    (doc.positions "phase") g.phases

variable {doc : Document} {l : Layout} {records : Records}

/-- How a graph is compiled. -/
theorem compile_ok (h : compile doc l = .ok g) :
    ∃ aliases records s, Records.ofDocument doc = .ok records ∧
      readScope doc l aliases records = .ok s ∧ read s doc records = .ok g := by
  simp only [compile, bind_ok] at h
  obtain ⟨aliases, -, records, hrecords, s, hs, g', hg', h⟩ := h
  split at h
  · cases h
  · cases pure_ok.1 h
    exact ⟨aliases, records, s, hrecords, hs, hg'⟩

/-- The records of a document are those of its keywords, in order. -/
theorem Records.ofDocument_ok (h : Records.ofDocument doc = .ok records) :
    records.actions.map (·.header) = (doc.positions "action").map doc.paramsAt ∧
      records.controlled.map (·.header) = (doc.positions "controlled-action").map doc.paramsAt ∧
      records.conditions.map (·.header) = (doc.positions "condition").map doc.paramsAt ∧
      records.phases.map (·.header) = (doc.positions "phase").map doc.paramsAt := by
  simp only [Records.ofDocument, bind_ok, pure_ok] at h
  obtain ⟨actions, hactions, controlled, hcontrolled, conditions, hconditions, phases, hphases,
    rfl⟩ := h
  exact ⟨Record.split_ok hactions, Record.split_ok hcontrolled, Record.split_ok hconditions,
    Record.split_ok hphases⟩

/-- Headers whose names are those of components declare the components. -/
theorem declared_of_declare {α : Type} {nameOf : α → String} {kind : String}
    {nameIn : String → Compiled String} {rs : List Record} {lines : List Nat} {as : List α}
    (hlines : rs.map (·.header) = lines.map doc.paramsAt)
    (hname : ∀ header name, nameIn header = .ok name → Text.words header = [name])
    (h : declare kind nameIn rs = .ok (as.map nameOf)) :
    List.Forall₂ (fun line a => Text.words (doc.paramsAt line) = [nameOf a]) lines as := by
  have hall := (declare_ok h).1
  rw [hlines, List.forall₂_map_left_iff, List.forall₂_map_right_iff] at hall
  exact hall.imp fun _ _ => hname _ _

/-- A compiled graph has the components of its document. -/
theorem declared_of_compile (h : compile doc l = .ok g) : g.Declared doc := by
  obtain ⟨aliases, records, s, hrecords, hs, hg⟩ := compile_ok h
  obtain ⟨-, mactions, mcontrolled, mconditions, mphases⟩ := models_of_read hs hg
  obtain ⟨-, -, -, sactions, scontrolled, -, sphases⟩ := readScope_ok hs
  obtain ⟨-, -, -, gconditions, -⟩ := read_ok hg
  obtain ⟨ractions, rcontrolled, rconditions, rphases⟩ := Records.ofDocument_ok hrecords
  refine ⟨?_, ?_, ?_, ?_⟩
  · exact declared_of_declare ractions (fun _ _ => Record.plainName_ok.1) (mactions ▸ sactions)
  · exact declared_of_declare rcontrolled (fun _ _ hname => (controlledName_ok.1 hname).1)
      (mcontrolled ▸ scontrolled)
  · have hheaders : List.Forall₂ (fun header (c : Condition) => Text.words header = c.headerWords)
        (records.conditions.map (·.header)) g.conditions := by
      rw [List.forall₂_map_left_iff]
      exact gconditions.imp fun r c hc => Record.negatableName_ok.1 (readCondition_ok hc).1
    rwa [rconditions, List.forall₂_map_left_iff] at hheaders
  · exact declared_of_declare rphases (fun _ _ => Record.plainName_ok.1) (mphases ▸ sphases)

/-- The names of a compiled graph stand for one component each. -/
theorem distinct_of_compile (h : compile doc l = .ok g) : g.Distinct := by
  obtain ⟨aliases, records, s, -, hs, hg⟩ := compile_ok h
  obtain ⟨-, mactions, mcontrolled, mconditions, mphases⟩ := models_of_read hs hg
  obtain ⟨-, -, -, sactions, scontrolled, sconditions, sphases⟩ := readScope_ok hs
  refine ⟨mactions ▸ (declare_ok sactions).2, mcontrolled ▸ (declare_ok scontrolled).2,
    mconditions ▸ (declare_ok sconditions).2, mphases ▸ (declare_ok sphases).2, ?_⟩
  intro a ha c hc heq
  have hmem : c.name ∈ s.controlled := mcontrolled ▸ List.mem_map_of_mem hc
  obtain ⟨i, hi, hname⟩ := List.getElem_of_mem hmem
  have hall := (declare_ok scontrolled).1
  have hread := hall.get (by rw [hall.length_eq]; exact hi) hi
  rw [List.get_eq_getElem, List.get_eq_getElem, hname] at hread
  refine (controlledName_ok.1 hread).2 ?_
  rw [mactions, ← heq]
  exact List.mem_map_of_mem ha

/-- A compiled graph is read in the scope that it makes up itself, so nothing depends on what is
declared before what. -/
theorem read_scope (h : compile doc l = .ok g) :
    ∃ records, Records.ofDocument doc = .ok records ∧
      read (g.scope doc.identity l) doc records = .ok g := by
  obtain ⟨aliases, records, s, hrecords, hs, hg⟩ := compile_ok h
  obtain ⟨hdocument, hlayout, -⟩ := readScope_ok hs
  have heq := (models_of_read hs hg).eq_scope
  rw [hdocument, hlayout] at heq
  exact ⟨records, hrecords, heq ▸ hg⟩

end Graph

end HouseRules
