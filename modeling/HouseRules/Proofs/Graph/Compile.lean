import HouseRules.Layout.Reader
import HouseRules.Proofs.Session.Play

/-!
# Compiled graphs

What compiling a rules document gives: a closed graph that has the components of the document under
their names, one meaning for every name, and the same one that the compiler gave it. Whatever is
then done with the graph at a table whose players are in its phases, nothing is looked up in vain
(`Judge.Finds`).

Reference: `ComponentCompiler.compile`, `Scope` (specification 4.2, 8).
-/

namespace HouseRules

/-- A judge finds everything that it looks up from a table on, and leaves all players in phases that
it will find again. -/
structure Judge.Finds (j : Judge) (t : Table) : Prop where
  condition : ∀ guard id supplied, id.index < j.graph.conditions.length →
    (j.condition guard id supplied t).1.Keeps (·.InPhases j.graph.phases.length)
  run : ∀ p supplied, p.Known j.graph →
    (j.run p supplied t).Keeps (·.InPhases j.graph.phases.length)
  respond : ∀ phase ∈ j.graph.phases, ∀ entry ∈ phase.allowed, ∀ supplied,
    (j.respond supplied entry.responses t).Keeps (·.InPhases j.graph.phases.length)
  settle : ∀ limit before,
    (j.settle limit before t).Keeps (·.InPhases j.graph.phases.length)
  enterPhase : ∀ limit again,
    (j.enterPhase limit again t).Keeps (·.InPhases j.graph.phases.length)
  permitted : ∀ id, ∀ phase ∈ j.graph.phases,
    (j.permitted id 0 phase.allowed t).Keeps (·.InPhases j.graph.phases.length)
  phase : ∀ seat id, t.phaseOf? seat = some id → ∃ phase, j.graph.phase id = .ok phase
  leadsTo : ∀ n p, p.Known j.graph → ∃ a, Session.leadsTo j.graph n p = .ok a
  name : ∀ p, p.Known j.graph → ∃ name, j.graph.nameOf p = .ok name

namespace Judge

variable {j : Judge} {l : Layout}

/-- Calls put nobody into a phase that is not there. -/
theorem preserves_inPhases (j : Judge) : j.Preserves (·.InPhases j.graph.phases.length) :=
  ⟨fun _ _ _ _ ht h => Operation.inPhases_dispatch ht h, fun _ ht => ht⟩

/-- Along true branches a closed graph leads to what is in it. -/
theorem leadsTo_ok {g : Graph} (hg : g.Closed l) {n : Nat} {p : Performable} (hp : p.Known g) :
    ∃ a, Session.leadsTo g n p = .ok a := by
  induction n generalizing p with
  | zero =>
    cases p with
    | action id =>
      obtain ⟨a, ha⟩ := action_ok hp
      exact ⟨some a, by rw [Session.leadsTo, ha]; rfl⟩
    | controlled id => exact ⟨none, rfl⟩
  | succ n ih =>
    cases p with
    | action id =>
      obtain ⟨a, ha⟩ := action_ok hp
      exact ⟨some a, by rw [Session.leadsTo, ha]; rfl⟩
    | controlled id =>
      obtain ⟨c, hmem, hc⟩ := controlledAction_ok hp
      obtain ⟨a, ha⟩ := ih (hg.branch_known hmem List.mem_cons_self)
      exact ⟨a, by rw [Session.leadsTo, hc]; exact ha⟩

/-- Every component of the graph has a name. -/
theorem nameOf_ok {g : Graph} {p : Performable} (hp : p.Known g) :
    ∃ name, g.nameOf p = .ok name := by
  cases p with
  | action id =>
    obtain ⟨a, ha⟩ := action_ok hp
    exact ⟨a.name, by rw [Graph.nameOf, ha]; rfl⟩
  | controlled id =>
    obtain ⟨c, -, hc⟩ := controlledAction_ok hp
    exact ⟨c.name, by rw [Graph.nameOf, hc]; rfl⟩

/-- On a closed graph nothing is looked up in vain. -/
theorem finds_of_closed (hg : j.graph.Closed l) {t : Table}
    (ht : t.InPhases j.graph.phases.length) : j.Finds t := by
  have hj := j.preserves_inPhases
  refine ⟨fun _ _ _ hid => condition_keeps hg hj hid ht, fun _ _ hp => run_keeps hg hj hp ht,
    ?_, fun _ _ => settle_keeps hg hj ht, fun _ _ => enterPhase_keeps hg hj ht, ?_, ?_,
    fun _ _ hp => leadsTo_ok hg hp, fun _ hp => nameOf_ok hp⟩
  · intro phase hphase entry hentry supplied
    exact respond_keeps hg hj (allowed_known hg hphase hentry).2 ht
  · intro id phase hphase
    exact permitted_keeps hg hj (fun _ hentry _ hr => hg.precondition_lt hphase hentry hr) ht
  · intro seat id hid
    obtain ⟨phase, -, hok⟩ := phase_ok (ht.phaseOf?_lt hid)
    exact ⟨phase, hok⟩

end Judge

namespace Graph

/-- A name stands in the graph for the component that has it, and for nothing else. -/
structure FindsByName (g : Graph) : Prop where
  action : ∀ name id,
    g.actionNamed? name = some id ↔ ∃ a, g.actions[id.index]? = some a ∧ a.name = name
  controlled : ∀ name id,
    g.controlledNamed? name = some id ↔ ∃ c, g.controlled[id.index]? = some c ∧ c.name = name
  condition : ∀ name id,
    g.conditionNamed? name = some id ↔ ∃ c, g.conditions[id.index]? = some c ∧ c.name = name
  phase : ∀ name id,
    g.phaseNamed? name = some id ↔ ∃ p, g.phases[id.index]? = some p ∧ p.name = name
  performable : ∀ name p, g.performable? name = some p ↔ g.nameOf p = .ok name

/-- A graph is what a document says when every name in it is read as what it stands for in the
graph. -/
structure ReadsItself (g : Graph) (doc : Document) (l : Layout) : Prop where
  read : ∃ records, Records.ofDocument doc = .ok records ∧
    read (g.scope doc.identity l) doc records = .ok g
  performable : ∀ name component, (g.scope doc.identity l).performable name component =
    orFail (Scope.unknown "action" name component) (g.performable? name)
  condition : ∀ name, (g.scope doc.identity l).condition? name = g.conditionNamed? name
  phase : ∀ name component, (g.scope doc.identity l).phase name component =
    orFail (Scope.unknown "phase" name component) (g.phaseNamed? name)

/-- Compiling gives a closed graph with the names of the document: every number and every pile in
it is there, each component is the one that its line declares, every name has one meaning, the one
that references were read with, and no look-up fails while the graph is put to use. -/
theorem closed_and_named_of_compile {doc : Document} {l : Layout} {g : Graph}
    (h : compile doc l = .ok g) :
    g.Closed l ∧ g.Declared doc ∧ g.Distinct ∧ g.FindsByName ∧ g.ReadsItself doc l ∧
      ∀ j : Judge, j.graph = g → ∀ t, t.InPhases g.phases.length → j.Finds t := by
  have hclosed := closed_of_compile h
  have hdistinct := distinct_of_compile h
  have hmodels := g.scope_models doc.identity l
  refine ⟨hclosed, declared_of_compile h, hdistinct, ?_, ?_, ?_⟩
  · exact ⟨fun _ _ => hdistinct.actionNamed?_eq_some, fun _ _ => hdistinct.controlledNamed?_eq_some,
      fun _ _ => hdistinct.conditionNamed?_eq_some, fun _ _ => hdistinct.phaseNamed?_eq_some,
      fun _ _ => hdistinct.performable?_eq_some⟩
  · exact ⟨read_scope h, hmodels.performable_eq, hmodels.condition?_eq, hmodels.phase_eq⟩
  · rintro j rfl t ht
    exact Judge.finds_of_closed hclosed ht

/-! ## A small game -/

/-- The rules of a game in which players draw until the pile is empty. References point forward. -/
def drawingRules : Document where
  kind := .rules
  name := "drawing"
  lines := [
    "players 2",
    "deal", "player-piles hand 1", "common-piles draw all", "deal-end",
    "condition stocked", "not check-if-empty pile.draw", "end-condition",
    "controlled-action refill", "stocked take leave", "end-controlled-action",
    "action take", "put-top pile.draw pile.hand",
    "action leave", "goto phase.rest", "end-action",
    "phase turn", "do refill", "allow", "stocked take", "allow leave", "end-allow",
    "phase rest", "end-phase"]

/-- The board of the game: a hand for each player and a pile to draw from. -/
def drawingBoard : Document where
  kind := .board
  name := "drawing"
  lines := ["cardpile hand", "owner player", "cardpile draw"]

/-- The layout and the components of the game. -/
def drawing : Compiled (Layout × Graph) := do
  let l ← Layout.compile drawingBoard
  let g ← compile drawingRules l
  return (l, g)

/-- The rules of the small game compile over the layout that comes with them. -/
theorem compile_of_drawing {l : Layout} {g : Graph} (h : drawing = .ok (l, g)) :
    compile drawingRules l = .ok g := by
  simp only [drawing, bind_ok, pure_ok] at h
  obtain ⟨_, -, _, hg, heq⟩ := h
  cases heq
  exact hg

/-- The small game compiles to a graph that is closed and finds everything by name. -/
theorem closed_and_named_drawing :
    ∃ l g, compile drawingRules l = .ok g ∧ g.Closed l ∧ g.Declared drawingRules ∧
      g.FindsByName ∧ g.ReadsItself drawingRules l ∧
      Judge.Finds ⟨g, .flat, 10000⟩
        (.fresh (.ofLayout l 1) [.seated "ann" []] .clockwise (.ofSeed 0)) := by
  have hok : drawing.isOk = true := by decide +kernel
  obtain ⟨⟨l, g⟩, h⟩ := Succeeds.of_isOk hok
  have hg := compile_of_drawing h
  obtain ⟨hclosed, hdeclared, -, hfinds, hreads, hjudge⟩ := closed_and_named_of_compile hg
  refine ⟨l, g, hg, hclosed, hdeclared, hfinds, hreads, hjudge _ rfl _ ?_⟩
  intro p hp id hid
  cases List.mem_singleton.1 hp
  cases hid

end Graph

end HouseRules
