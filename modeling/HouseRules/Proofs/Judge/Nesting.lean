import HouseRules.Proofs.Graph.Compile
import HouseRules.Proofs.Graph.Cycle
import HouseRules.Proofs.Judge.Recursion

/-!
# Controlled actions inside one another

A controlled action runs others, these run others again, and nothing in the running itself bounds
how far this goes. `Judge.executeWithin` is running with a bound on the depth, with one guard passed
along through everything that is run and asked, and with no answer where the depth does not do. That
it always has one on a compiled graph is due to the search for cycles: the controlled actions that
one is inside of lead to it, so no two of them are the same where none runs itself, and a depth of
one more than there are controlled actions is enough for all of them and the action at the end
(`Judge.executeWithin_ends`). The way along true branches comes to an action for the same reason.

Reference: `ComponentCompiler.check_controlled_cycles`, `Evaluator.execute` (specification 4.5).
-/

namespace HouseRules

open Relation (ReflTransGen TransGen)

/-! ## Runs that end -/

/-- A run with a guard that ends wherever it is begun, and does under the empty guard what another
run does without one, leaving the guard empty. -/
def Guarded.Ends {α : Type} (run : Table → Guard → Guarded α) (answer : Table → Answer α) : Prop :=
  ∀ t guard, ∃ r, run t guard = some r ∧ (guard = .empty → r = (answer t, .empty))

namespace Guarded.Ends

variable {α β : Type}

/-- A run that does not look at the guard ends and leaves it as it is. -/
theorem of_answer (answer : Table → Answer α) :
    Ends (fun t guard => some (answer t, guard)) answer :=
  fun t guard => ⟨_, rfl, fun hguard => by rw [hguard]⟩

/-- A run goes on with the result of one that ends, and ends if what it goes on with does. -/
theorem andThen {run : Table → Guard → Guarded α} {answer : Table → Answer α}
    {next : α → Table → Guard → Guarded β} {nextAnswer : α → Table → Answer β}
    (h : Ends run answer) (hnext : ∀ a, Ends (next a) (nextAnswer a)) :
    Ends (fun t guard => Guarded.andThen (run t guard) next)
      fun t => Answer.andThen (answer t) nextAnswer := by
  intro t guard
  dsimp only
  obtain ⟨⟨⟨e | a, t'⟩, guard'⟩, hrun, hempty⟩ := h t guard
  · refine ⟨((.error e, t'), guard'), by rw [hrun]; rfl, fun hguard => ?_⟩
    obtain ⟨hanswer, rfl⟩ := Prod.mk.inj (hempty hguard)
    rw [← hanswer]
    rfl
  · obtain ⟨r, hr, hnextEmpty⟩ := hnext a t' guard'
    refine ⟨r, by rw [hrun]; exact hr, fun hguard => ?_⟩
    obtain ⟨hanswer, rfl⟩ := Prod.mk.inj (hempty hguard)
    rw [← hanswer]
    exact hnextEmpty rfl

end Guarded.Ends

namespace Judge

open Guarded (Ends)

/-! ## Running to a depth -/

/-- As `holds`, with the guard passed along and cleared in the end. -/
def holdsUnder (j : Judge) (r : ConditionRef) (supplied : List Value) (t : Table) (guard : Guard) :
    Guarded Bool :=
  let depth := j.graph.conditions.length + 1
  let verdict := (j.conditionWithin depth r.id supplied t guard).map fun (a, _) => (a, .empty)
  Guarded.andThen verdict fun value t guard => some ((.ok (value != r.negated), t), guard)

/-- As `branch`, with the guard passed along. -/
def branchUnder (j : Judge) (run : Performable → Table → Guard → Guarded Bool)
    (c : ControlledAction) (supplied : List Value) (t : Table) (guard : Guard) : Guarded Bool :=
  match c.condition with
  | none => run c.onTrue t guard
  | some r =>
    Guarded.andThen (j.holdsUnder r supplied t guard) fun value t guard =>
      match value, c.onFalse with
      | true, _ => run c.onTrue t guard
      | false, some otherwise => run otherwise t guard
      | false, none => some ((.ok false, t), guard)

/-- As `repeatRuns`, with the guard passed along. -/
def repeatUnder (run : Table → Guard → Guarded Bool) (atLimit : Bool → Except RuntimeError Bool) :
    (n : Nat) → (any : Bool) → Table → Guard → Guarded Bool
  | 0, any, t, guard => some ((atLimit any, t), guard)
  | n + 1, any, t, guard =>
    Guarded.andThen (run t guard) fun effective t guard =>
      if effective then repeatUnder run atLimit n true t guard else some ((.ok any, t), guard)

/-- As `controlled`, with the guard passed along. -/
def controlledUnder (j : Judge) (run : Performable → Table → Guard → Guarded Bool)
    (c : ControlledAction) (supplied : List Value) : Table → Guard → Guarded Bool :=
  let once := j.branchUnder run c supplied
  match c.repetition with
  | .once => once
  | .times n => repeatUnder once .ok n false
  | .untilFalse =>
    repeatUnder once (fun _ => .error (.repeatLimit c.name j.maxRepeat)) j.maxRepeat false

/-- Runs an action or a controlled action with at most `depth` of them inside one another. -/
def executeWithin (j : Judge) (supplied : List Value) :
    (depth : Nat) → Performable → Table → Guard → Guarded Bool
  | 0, _, _, _ => none
  | _ + 1, .action id, t, guard =>
    some (Answer.andThen (.ofExcept t (j.graph.action id)) fun a t =>
      j.effect a.verb a.parameters supplied t, guard)
  | depth + 1, .controlled id, t, guard =>
    match j.graph.controlledAction id with
    | .error e => some ((.error e, t), guard)
    | .ok c => j.controlledUnder (executeWithin j supplied depth) c supplied t guard

/-! ## Running ends -/

variable {j : Judge} {supplied : List Value}

/-- A condition ends under every guard, which is cleared afterwards. -/
theorem holdsUnder_ends (r : ConditionRef) (supplied : List Value) :
    Ends (j.holdsUnder r supplied) (j.holds r supplied) := by
  have hcondition : Ends (fun t guard =>
        (j.conditionWithin (j.graph.conditions.length + 1) r.id supplied t guard).map
          fun (a, _) => (a, .empty))
      fun t => (j.condition .empty r.id supplied t).1 := by
    intro t guard
    have hdepth := Nat.lt_succ_of_le (guard.room_le j.graph)
    refine ⟨((j.condition guard r.id supplied t).1, .empty), ?_, ?_⟩
    · dsimp only
      rw [conditionWithin_eq hdepth]
      rfl
    · rintro rfl
      rfl
  exact hcondition.andThen fun value => .of_answer fun t => (.ok (value != r.negated), t)

/-- A controlled action, run once, ends when its branches do. -/
theorem branchUnder_ends {run : Performable → Table → Guard → Guarded Bool}
    {answer : Performable → Table → Answer Bool} {c : ControlledAction}
    (hrun : ∀ p ∈ c.branches, Ends (run p) (answer p)) :
    Ends (j.branchUnder run c supplied) (j.branch answer c supplied) := by
  have htrue : Ends (run c.onTrue) (answer c.onTrue) := hrun _ List.mem_cons_self
  have hfalse : ∀ p, c.onFalse = some p → Ends (run p) (answer p) := fun p hp =>
    hrun p (List.mem_cons_of_mem _ (by rw [hp]; exact List.mem_singleton_self p))
  unfold branchUnder branch
  cases c.condition with
  | none => exact htrue
  | some r =>
    refine (holdsUnder_ends r supplied).andThen fun value => ?_
    cases value with
    | true => exact htrue
    | false =>
      cases hotherwise : c.onFalse with
      | none => exact .of_answer fun t => (.ok false, t)
      | some otherwise => exact hfalse otherwise hotherwise

/-- Runs in a row end when each of them does. -/
theorem repeatUnder_ends {run : Table → Guard → Guarded Bool} {answer : Table → Answer Bool}
    (hrun : Ends run answer) (atLimit : Bool → Except RuntimeError Bool) (n : Nat) (any : Bool) :
    Ends (repeatUnder run atLimit n any) (repeatRuns answer atLimit n any) := by
  induction n generalizing any with
  | zero => exact .of_answer fun t => (atLimit any, t)
  | succ n ih =>
    refine hrun.andThen fun effective => ?_
    cases effective with
    | true => exact ih true
    | false => exact .of_answer fun t => (.ok any, t)

/-- A controlled action ends when its branches do, however it repeats. -/
theorem controlledUnder_ends {run : Performable → Table → Guard → Guarded Bool}
    {answer : Performable → Table → Answer Bool} {c : ControlledAction}
    (hrun : ∀ p ∈ c.branches, Ends (run p) (answer p)) :
    Ends (j.controlledUnder run c supplied) (j.controlled answer c supplied) := by
  have honce : Ends (j.branchUnder run c supplied) (j.branch answer c supplied) :=
    branchUnder_ends hrun
  unfold controlledUnder controlled
  cases c.repetition with
  | once => exact honce
  | times n => exact repeatUnder_ends honce _ n false
  | untilFalse => exact repeatUnder_ends honce _ j.maxRepeat false

/-- Inside of the controlled actions of a trail there is depth enough where there is room for all
that are not on it, and for the action at the end. -/
theorem executeWithin_ends (hg : ¬ j.graph.Cyclic) {depth levels : Nat} {trail : List Nat}
    {p : Performable} (htrail : ∀ id, p = .controlled id → j.graph.LeadsTo trail id)
    (hdepth : Trail.room j.graph.controlled.length trail < depth)
    (hlevels : Trail.room j.graph.controlled.length trail ≤ levels) :
    Ends (j.executeWithin supplied depth p) (j.runWithin supplied levels p) := by
  induction depth generalizing levels trail p with
  | zero => exact absurd hdepth (Nat.not_lt_zero _)
  | succ depth ih =>
    cases p with
    | action id =>
      have hrun : ∀ levels, j.runWithin supplied levels (.action id) = fun t =>
          Answer.andThen (.ofExcept t (j.graph.action id)) fun a t =>
            j.effect a.verb a.parameters supplied t := by
        rintro (_ | _) <;> rfl
      rw [hrun]
      exact .of_answer _
    | controlled id =>
      cases hc : j.graph.controlled[id.index]? with
      | none =>
        let e : RuntimeError := .unknownComponent "controlled-action" id.describe
        have hid : j.graph.controlledAction id = .error e := by rw [Graph.controlledAction, hc]; rfl
        have hexecute : j.executeWithin supplied (depth + 1) (.controlled id) =
            fun t guard => some ((.error e, t), guard) := by
          funext t guard
          rw [executeWithin, hid]
        have hrun : j.runWithin supplied levels (.controlled id) = fun t => (.error e, t) := by
          funext t
          cases levels <;> rw [runWithin, hid] <;> rfl
        rw [hexecute, hrun]
        exact .of_answer _
      | some c =>
        have hid : j.graph.controlledAction id = .ok c := by rw [Graph.controlledAction, hc]; rfl
        have hexecute : j.executeWithin supplied (depth + 1) (.controlled id) =
            j.controlledUnder (j.executeWithin supplied depth) c supplied := by
          funext t guard
          rw [executeWithin, hid]
        -- The controlled action is not on the trail, so there is room for it.
        have hroom := Graph.room_append_lt hc
          (Bool.eq_false_iff.1 ((htrail id rfl).contains hg))
        obtain ⟨levels, rfl⟩ := Nat.exists_eq_succ_of_ne_zero
          (Nat.ne_zero_of_lt (Nat.lt_of_lt_of_le hroom hlevels))
        have hrun : j.runWithin supplied (levels + 1) (.controlled id) =
            j.controlled (j.runWithin supplied levels) c supplied := by
          funext t
          rw [runWithin, hid]
          rfl
        rw [hexecute, hrun]
        refine controlledUnder_ends fun q hq => ?_
        have hnext : ∀ next, q = .controlled next →
            j.graph.LeadsTo (trail ++ [id.index]) next := by
          rintro next rfl
          exact (htrail id rfl).append ⟨c, hc, hq⟩
        exact ih hnext (Nat.lt_of_lt_of_le hroom (Nat.le_of_lt_succ hdepth))
          (Nat.le_of_lt_succ (Nat.lt_of_lt_of_le hroom hlevels))

/-- Along true branches the way comes to an action. -/
theorem leadsTo_ne_none {g : Graph} (hg : ¬ g.Cyclic) {n : Nat} {trail : List Nat} {p : Performable}
    (htrail : ∀ id, p = .controlled id → g.LeadsTo trail id)
    (hn : Trail.room g.controlled.length trail < n) : Session.leadsTo g n p ≠ .ok none := by
  induction n generalizing trail p with
  | zero => exact absurd hn (Nat.not_lt_zero _)
  | succ n ih =>
    cases p with
    | action id =>
      rw [Session.leadsTo]
      cases g.action id with
      | error e => exact fun h => by cases h
      | ok a => exact fun h => by cases h
    | controlled id =>
      rw [Session.leadsTo, Graph.controlledAction]
      cases hc : g.controlled[id.index]? with
      | none => exact fun h => by cases h
      | some c =>
        have hroom := Graph.room_append_lt hc (Bool.eq_false_iff.1 ((htrail id rfl).contains hg))
        have hnext : ∀ next, c.onTrue = .controlled next →
            g.LeadsTo (trail ++ [id.index]) next := fun next heq =>
          (htrail id rfl).append ⟨c, hc, heq ▸ List.mem_cons_self⟩
        exact ih hnext (Nat.lt_of_lt_of_le hroom (Nat.le_of_lt_succ hn))

/-- **Controlled actions do not run themselves, and running them ends.** A document whose components
can be read is refused for a controlled action that runs itself exactly if there is one. On a
compiled graph a depth of one more than there are controlled actions is enough to run anything under
any guard; under the empty one, what it comes to is what the judge does, and the guard is left
empty. So many steps along true branches, too, always come to an action. -/
theorem cycles_refused_and_running_ends (doc : Document) (l : Layout) :
    (∀ g, Graph.assemble doc l = .ok g →
      ((∃ name, Graph.compile doc l = .error (.invalidComponent "controlled-action" name
          "runs itself through its branches")) ↔ ∃ id, TransGen g.Runs id id)) ∧
      ∀ j : Judge, Graph.compile doc l = .ok j.graph → ∀ depth, j.graph.controlled.length < depth →
        ∀ p : Performable,
          (∀ supplied t guard, ∃ r, j.executeWithin supplied depth p t guard = some r) ∧
          (∀ supplied t,
            j.executeWithin supplied depth p t .empty = some (j.run p supplied t, .empty)) ∧
          Session.leadsTo j.graph depth p ≠ .ok none ∧
          (p.Known j.graph → ∃ a, Session.leadsTo j.graph depth p = .ok (some a)) := by
  constructor
  · intro g hg
    constructor
    · rintro ⟨name, hname⟩
      by_contra hacyclic
      cases hname.symm.trans (Graph.compile_of_not_cyclic hg hacyclic)
    · intro hcyclic
      obtain ⟨id, -, hid⟩ := Graph.compile_of_cyclic hg hcyclic
      exact ⟨_, hid⟩
  · intro j hj depth hdepth p
    have hacyclic := Graph.not_cyclic_of_compile hj
    have hroom := Trail.room_le j.graph.controlled.length []
    have hends : ∀ supplied, Ends (j.executeWithin supplied depth p) (j.run p supplied) := fun _ =>
      executeWithin_ends hacyclic (fun id _ => .nil id) (Nat.lt_of_le_of_lt hroom hdepth) hroom
    have haction : Session.leadsTo j.graph depth p ≠ .ok none :=
      leadsTo_ne_none hacyclic (fun id _ => .nil id) (Nat.lt_of_le_of_lt hroom hdepth)
    refine ⟨fun supplied t guard => ?_, fun supplied t => ?_, haction, fun hp => ?_⟩
    · obtain ⟨r, hr, -⟩ := hends supplied t guard
      exact ⟨r, hr⟩
    · obtain ⟨r, hr, hempty⟩ := hends supplied t .empty
      rw [hr, hempty rfl]
    · obtain ⟨a | a, ha⟩ := leadsTo_ok (Graph.closed_of_compile hj) hp
      · exact absurd ha haction
      · exact ⟨a, ha⟩

/-- Rules with two ways to one controlled action, and with a third that comes back. -/
def branchingRules (back : String) : Document where
  kind := .rules
  name := "branching"
  lines := [
    "condition bare", "check-if-empty pile.draw", "end-condition",
    "controlled-action top", "bare left right", "end-controlled-action",
    "controlled-action left", "bare shared", "end-controlled-action",
    "controlled-action right", "bare pass shared", "end-controlled-action",
    "controlled-action shared", "bare pass " ++ back, "end-controlled-action",
    "action pass", "end-turn", "end-action"]

/-- The rules that come back are refused although nothing else is wrong with them, and the others
compile although two ways lead to one place. -/
theorem branching_refused_and_ends :
    ∃ l, Layout.compile Graph.drawingBoard = .ok l ∧
      (∃ name, Graph.compile (branchingRules "top") l = .error
        (.invalidComponent "controlled-action" name "runs itself through its branches")) ∧
      ∃ g, Graph.compile (branchingRules "pass") l = .ok g ∧ ∀ t,
        executeWithin ⟨g, .flat, 1⟩ [] (g.controlled.length + 1) (.controlled ⟨0⟩) t .empty =
          some (run ⟨g, .flat, 1⟩ (.controlled ⟨0⟩) [] t, .empty) := by
  have hlayout : (Layout.compile Graph.drawingBoard).isOk = true := by decide +kernel
  have htop : (Layout.compile Graph.drawingBoard >>= fun l => do
      return (← Graph.assemble (branchingRules "top") l).findCycle?) = .ok (some ⟨0⟩) := by
    decide +kernel
  have hpass : (Layout.compile Graph.drawingBoard >>= fun l =>
      Graph.compile (branchingRules "pass") l).isOk = true := by decide +kernel
  obtain ⟨l, hl⟩ := Succeeds.of_isOk hlayout
  obtain ⟨g, hg⟩ := Succeeds.of_isOk hpass
  simp only [hl, bind_ok, pure_ok, Except.ok.injEq, exists_eq_left'] at htop hg
  obtain ⟨round, hround, hcycle⟩ := htop
  obtain ⟨hrefused, -⟩ := cycles_refused_and_running_ends (branchingRules "top") l
  obtain ⟨-, hends⟩ := cycles_refused_and_running_ends (branchingRules "pass") l
  refine ⟨l, hl, (hrefused round hround).2 ⟨⟨0⟩, Graph.transGen_of_findCycle? hcycle⟩, g, hg, ?_⟩
  exact (hends ⟨g, .flat, 1⟩ hg _ (Nat.lt_succ_self _) (.controlled ⟨0⟩)).2.1 []

end Judge

end HouseRules
