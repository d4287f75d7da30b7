import HouseRules.Judge
import HouseRules.Proofs.Argument
import HouseRules.Proofs.Graph.Closed

/-!
# What a judge keeps

Everything a judge does comes down to calls of verbs, so what calls keep is kept by conditions,
however they are nested, by controlled actions, however they branch and repeat, and also where an
error ends them half way. This module says so once, for any property of tables that calls keep
(`Judge.Preserves`): each lemma takes one way of putting things together, and `condition_keeps`,
`holds_keeps` and `run_keeps` are assembled from these along the recursion of the judge.

On a closed graph nothing that is looked up is missing, which goes through the same inductions, so
`Answer.Keeps` says both: the table still has the property, and the error, if there is one, is not
about an unknown component.
-/

namespace HouseRules

/-! ## Answers -/

/-- Two halves give a result together when both do. -/
theorem Answer.andThen_eq_ok {α β : Type} {r : Answer α} {next : α → Table → Answer β} {b : β}
    {t' : Table} :
    Answer.andThen r next = (.ok b, t') ↔ ∃ a t, r = (.ok a, t) ∧ next a t = (.ok b, t') := by
  obtain ⟨e | a, t⟩ := r <;> simp

/-- The table of an answer has a property, and nothing looked up was missing. -/
def Answer.Keeps {α : Type} (p : Table → Prop) (r : Answer α) : Prop :=
  p r.2 ∧ FailsOnly (¬ ·.IsUnknown) r.1

namespace Answer.Keeps

variable {p : Table → Prop} {α β : Type} {t : Table}

/-- An answer keeps what its table has. -/
theorem ok {a : α} (ht : p t) : Keeps p ((.ok a, t) : Answer α) := ⟨ht, .ok⟩

/-- An answer with an error keeps what its table has, if the error is not about an unknown
component. -/
theorem error {e : RuntimeError} (ht : p t) (he : ¬ e.IsUnknown) :
    Keeps p ((.error e, t) : Answer α) := ⟨ht, .error he⟩

/-- A look-up at a table keeps what the table has, if nothing looked up is missing. -/
theorem ofExcept {x : Except RuntimeError α} (ht : p t) (hx : FailsOnly (¬ ·.IsUnknown) x) :
    Keeps p (Answer.ofExcept t x) := ⟨ht, hx⟩

/-- What both halves keep the whole keeps. -/
theorem andThen {r : Answer α} {next : α → Table → Answer β} (hr : Keeps p r)
    (hnext : ∀ a t, r = (.ok a, t) → p t → Keeps p (next a t)) :
    Keeps p (Answer.andThen r next) := by
  obtain ⟨e | a, t⟩ := r
  · exact ⟨hr.1, fun e' he' => hr.2 e' (by cases he'; rfl)⟩
  · exact hnext a t rfl hr.1

end Answer.Keeps

/-- A statement that asks a condition refers to it. -/
theorem Graph.Refers.of_statement {g : Graph} {a b : ConditionId} {c : Condition} {s : Statement}
    (hc : g.conditions[a.index]? = some c) (hs : s ∈ c.statements)
    (hb : s.question.reference? = some b) : g.Refers a b :=
  ⟨c, hc, List.mem_filterMap.2 ⟨s, hs, hb⟩⟩

namespace Judge

open Answer (Keeps)

/-- Calls keep a property of tables, and tables with the property have nobody in a phase that is
not there. -/
structure Preserves (j : Judge) (p : Table → Prop) : Prop where
  dispatch : ∀ c t outcome t', p t →
    Operation.dispatch c j.ranking j.graph.phases.length t = .ok (outcome, t') → p t'
  inPhases : ∀ t, p t → t.InPhases j.graph.phases.length

variable {j : Judge} {p : Table → Prop}

/-! ## Calls -/

/-- A call fails only over its arguments, whether they are missing or do not do. -/
theorem call_failsOnly {verb : Verb} {parameters : List Token} {supplied : List Value}
    {t : Table} : FailsOnly RuntimeError.IsArgument (j.call verb parameters supplied t) :=
  .bind (Token.arguments_failsOnly _ _ _ _ _) fun _ _ => Operation.dispatch_failsOnly

/-- A call of a verb, effect or error, keeps what calls keep. -/
theorem effect_keeps (hj : j.Preserves p) {t : Table} (ht : p t) (verb : Verb)
    (parameters : List Token) (supplied : List Value) :
    Keeps p (j.effect verb parameters supplied t) := by
  unfold effect
  split
  next outcome t' heq =>
    obtain ⟨values, -, hdispatch⟩ := bind_ok.1 heq
    exact .ok (hj.dispatch _ t outcome t' ht hdispatch)
  next e heq =>
    refine .error ht ?_
    exact (call_failsOnly e heq).not_isUnknown

/-! ## Conditions -/

/-- What every statement keeps the rest of a chain keeps, wherever it is decided. -/
theorem chainFrom_keeps {ask : Statement → Table → Answer Bool} {statements : List Statement}
    (hask : ∀ s ∈ statements, ∀ t, p t → Keeps p (ask s t)) {sofar : Bool}
    {pending : Connective} {t : Table} (ht : p t) :
    Keeps p (chainFrom ask sofar pending statements t) := by
  induction statements generalizing sofar pending t with
  | nil => exact .ok ht
  | cons s rest ih =>
    unfold chainFrom
    split
    · exact .ok ht
    · refine .andThen (hask s List.mem_cons_self t ht) fun next t _ ht => ?_
      exact ih (fun s hs => hask s (List.mem_cons_of_mem _ hs)) ht

/-- What every statement keeps a chain keeps. -/
theorem chain_keeps {ask : Statement → Table → Answer Bool} {statements : List Statement}
    (hask : ∀ s ∈ statements, ∀ t, p t → Keeps p (ask s t)) {t : Table} (ht : p t) :
    Keeps p (chain ask statements t) := by
  unfold chain
  split
  · exact .ok ht
  next s rest =>
    refine .andThen (hask s List.mem_cons_self t ht) fun first t _ ht => ?_
    exact chainFrom_keeps (fun s hs => hask s (List.mem_cons_of_mem _ hs)) ht

/-- A statement keeps what calls and the conditions it asks keep. -/
theorem statement_keeps (hj : j.Preserves p)
    {ask : ConditionId → List Value → Table → Answer Bool} {condition : String}
    {supplied : List Value} {s : Statement}
    (hask : ∀ id, s.question.reference? = some id → ∀ values t, p t → Keeps p (ask id values t))
    {t : Table} (ht : p t) : Keeps p (j.statement ask condition supplied s t) := by
  unfold statement
  refine .andThen ?_ fun value t _ ht => .ok ht
  split
  next verb parameters _ => exact effect_keeps hj ht verb parameters supplied
  next id heq => exact hask id (by rw [heq]; rfl) supplied t ht
  next id tokens heq =>
    have hvalues := Token.resolveAll_failsOnly t condition supplied tokens
    refine .andThen (.ofExcept ht (hvalues.mono fun _ => (·.not_isUnknown))) fun values t _ ht => ?_
    exact hask id (by rw [heq]; rfl) values t ht

variable {l : Layout}

/-- Evaluating a condition keeps what calls keep, whatever conditions are under way. -/
theorem condition_keeps (hg : j.graph.Closed l) (hj : j.Preserves p) {guard : Guard}
    {id : ConditionId} (hid : id.index < j.graph.conditions.length) {supplied : List Value}
    {t : Table} (ht : p t) : Keeps p (j.condition guard id supplied t).1 := by
  induction hroom : guard.room j.graph using Nat.strong_induction_on
    generalizing guard id supplied t with
  | _ n ih =>
    unfold condition
    split
    next e he =>
      refine .error ht ?_
      unfold Guard.enter at he
      split at he <;> cases he
      exact fun h => h
    next inner hinner =>
      split
      next hnone => exact absurd hid (Nat.not_lt.2 (List.getElem?_eq_none_iff.1 hnone))
      next c hc =>
        refine .andThen (chain_keeps (fun s hs t ht => ?_) ht) fun value t _ ht => .ok ht
        refine statement_keeps hj (fun other hother values t ht => ?_) ht
        have hlt := hg.reference_lt (List.mem_of_getElem? hc) hs hother
        exact ih _ (hroom ▸ Guard.room_lt hinner hc) hlt ht rfl

/-- A reference to a condition of the graph keeps what calls keep. -/
theorem holds_keeps (hg : j.graph.Closed l) (hj : j.Preserves p) {r : ConditionRef}
    (hr : r.id.index < j.graph.conditions.length) {supplied : List Value} {t : Table}
    (ht : p t) : Keeps p (j.holds r supplied t) :=
  .andThen (condition_keeps hg hj hr ht) fun _ _ _ ht => .ok ht

/-! ## Actions -/

/-- A controlled action, run once, keeps what its branches keep. -/
theorem branch_keeps (hg : j.graph.Closed l) (hj : j.Preserves p)
    {run : Performable → Table → Answer Bool} {c : ControlledAction} (hc : c ∈ j.graph.controlled)
    (hrun : ∀ q ∈ c.branches, ∀ t, p t → Keeps p (run q t)) {supplied : List Value} {t : Table}
    (ht : p t) : Keeps p (j.branch run c supplied t) := by
  have htrue := hrun c.onTrue List.mem_cons_self
  unfold branch
  split
  · exact htrue t ht
  next r hr =>
    refine .andThen (holds_keeps hg hj (hg.gate_lt hc hr) ht) fun value t _ ht => ?_
    split
    · exact htrue t ht
    next otherwise hfalse _ =>
      exact hrun otherwise (List.mem_cons_of_mem _ (by simp [hfalse])) t ht
    · exact .ok ht

/-- Runs in a row keep what each of them keeps. -/
theorem repeatRuns_keeps {run : Table → Answer Bool} (hrun : ∀ t, p t → Keeps p (run t))
    {atLimit : Bool → Except RuntimeError Bool}
    (hlimit : ∀ any, FailsOnly (¬ ·.IsUnknown) (atLimit any)) {n : Nat} {any : Bool} {t : Table}
    (ht : p t) : Keeps p (repeatRuns run atLimit n any t) := by
  induction n generalizing any t with
  | zero => exact ⟨ht, hlimit any⟩
  | succ n ih =>
    refine .andThen (hrun t ht) fun effective t _ ht => ?_
    split
    · exact ih ht
    · exact .ok ht

/-- A controlled action keeps what its branches keep, however it repeats. -/
theorem controlled_keeps (hg : j.graph.Closed l) (hj : j.Preserves p)
    {run : Performable → Table → Answer Bool} {c : ControlledAction} (hc : c ∈ j.graph.controlled)
    (hrun : ∀ q ∈ c.branches, ∀ t, p t → Keeps p (run q t)) {supplied : List Value} {t : Table}
    (ht : p t) : Keeps p (j.controlled run c supplied t) := by
  have honce : ∀ t, p t → Keeps p (j.branch run c supplied t) := fun t ht =>
    branch_keeps hg hj hc hrun ht
  unfold controlled
  split
  · exact honce t ht
  · exact repeatRuns_keeps honce (fun _ => .ok) ht
  · exact repeatRuns_keeps honce (fun _ => .error id) ht

/-- An action of the graph is found. -/
theorem action_ok {g : Graph} {id : ActionId} (h : id.index < g.actions.length) :
    ∃ a, g.action id = .ok a :=
  ⟨g.actions[id.index], orFail_eq_ok.2 (List.getElem?_eq_getElem h)⟩

/-- A controlled action of the graph is found among those of the graph. -/
theorem controlledAction_ok {g : Graph} {id : ControlledId} (h : id.index < g.controlled.length) :
    ∃ c ∈ g.controlled, g.controlledAction id = .ok c :=
  ⟨g.controlled[id.index], List.getElem_mem h, orFail_eq_ok.2 (List.getElem?_eq_getElem h)⟩

/-- Running what is in the graph keeps what calls keep, to whatever depth. -/
theorem runWithin_keeps (hg : j.graph.Closed l) (hj : j.Preserves p) {supplied : List Value}
    {levels : Nat} {run : Performable} (hrun : run.Known j.graph) {t : Table} (ht : p t) :
    Keeps p (j.runWithin supplied levels run t) := by
  induction levels generalizing run t with
  | zero =>
    cases run with
    | action id =>
      obtain ⟨a, ha⟩ := action_ok hrun
      simp only [runWithin, Answer.ofExcept, ha, Answer.andThen_ok]
      exact effect_keeps hj ht a.verb a.parameters supplied
    | controlled id =>
      obtain ⟨c, -, hc⟩ := controlledAction_ok hrun
      simp only [runWithin, Answer.ofExcept, hc, Answer.andThen_ok]
      exact .error ht nofun
  | succ levels ih =>
    cases run with
    | action id =>
      obtain ⟨a, ha⟩ := action_ok hrun
      simp only [runWithin, Answer.ofExcept, ha, Answer.andThen_ok]
      exact effect_keeps hj ht a.verb a.parameters supplied
    | controlled id =>
      obtain ⟨c, hmem, hc⟩ := controlledAction_ok hrun
      simp only [runWithin, Answer.ofExcept, hc, Answer.andThen_ok]
      exact controlled_keeps hg hj hmem
        (fun next hnext t ht => ih (hg.branch_known hmem hnext) ht) ht

/-- Running what is in the graph keeps what calls keep. -/
theorem run_keeps (hg : j.graph.Closed l) (hj : j.Preserves p) {run : Performable}
    (hrun : run.Known j.graph) {supplied : List Value} {t : Table} (ht : p t) :
    Keeps p (j.run run supplied t) :=
  runWithin_keeps hg hj hrun ht

end Judge

end HouseRules
