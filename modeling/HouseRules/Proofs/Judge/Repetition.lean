import HouseRules.Proofs.Graph.Names
import HouseRules.Proofs.Judge.Nesting

/-!
# Repeating a controlled action

A controlled action runs once, a number of times, or up to the first run without effect. All three
are runs of the same thing in a row, and differ only in where they stop and in what they make of
having got there. `Judge.Effective` says that so many runs in a row take effect. What repeating
comes to is then read off the first run that does not (`Judge.Effective.repeatRuns_of_lt`), or off
there being none (`Judge.Effective.repeatRuns_eq`).

To compare the ways of repeating one action, the judge is given a graph in which this action repeats
in another way (`Judge.repeating`). Nothing the action runs notices the change: on a compiled graph
no way leads from its branches back to it (`Graph.Avoids`). For the same reason, and because no two
controlled actions have one name, an error over the limit that names the action is its own
(`Judge.runWithin_failsOnly`).

Reference: `Evaluator.controlled` (specification 4.5, E4).
-/

namespace HouseRules

open Relation (ReflTransGen TransGen)
open Answer (andThen)

/-- The error is not that a controlled action of a given name ran too often. -/
def RuntimeError.NotLimitOf (name : String) : RuntimeError → Prop
  | .repeatLimit component _ => component ≠ name
  | _ => True

/-- The error is one that evaluating a condition may end in. -/
def RuntimeError.IsOfCondition : RuntimeError → Prop
  | .unknownComponent _ _ | .circularCondition _ _ => True
  | e => e.IsArgument

/-- Evaluating a condition may end in an error about an argument. -/
theorem RuntimeError.IsArgument.isOfCondition {e : RuntimeError} (h : e.IsArgument) :
    e.IsOfCondition := by
  cases e <;> first | exact h.elim | trivial

/-- What a condition may end in is not that a controlled action ran too often. -/
theorem RuntimeError.IsOfCondition.notLimitOf {name : String} {e : RuntimeError}
    (h : e.IsOfCondition) : e.NotLimitOf name := by
  cases e <;> first | exact h.elim | trivial

namespace Judge

/-! ## Runs in a row -/

/-- So many runs in a row take effect, and lead from one table to another. -/
inductive Effective (run : Table → Answer Bool) : Nat → Table → Table → Prop
  | zero (t : Table) : Effective run 0 t t
  | succ {n : Nat} {t t' s : Table} (h : run t = (.ok true, t')) (hs : Effective run n t' s) :
    Effective run (n + 1) t s

variable {run : Table → Answer Bool} {atLimit : Bool → Except RuntimeError Bool} {k m n : Nat}
  {any : Bool} {t s s' : Table}

/-- Effective runs are left behind one by one. -/
theorem Effective.repeatRuns_add (h : Effective run m t s) (n : Nat) (any : Bool) :
    repeatRuns run atLimit (m + n) any t = repeatRuns run atLimit n (any || m != 0) s := by
  induction h generalizing any with
  | zero t => simp
  | succ h _ ih =>
    rw [Nat.succ_add, repeatRuns, h, Answer.andThen_ok, if_pos rfl, ih]
    simp

/-- Where all runs take effect, the limit decides. -/
theorem Effective.repeatRuns_eq (h : Effective run n t s) :
    repeatRuns run atLimit n any t = (atLimit (any || n != 0), s) :=
  h.repeatRuns_add 0 any

/-- The first run that does not take effect is the last one, and its error is passed on. -/
theorem Effective.repeatRuns_of_lt (h : Effective run k t s) (hk : k < n)
    {r : Except RuntimeError Bool} (hlast : run s = (r, s')) (hr : r ≠ .ok true) :
    repeatRuns run atLimit n any t = (r.map fun _ => any || k != 0, s') := by
  obtain ⟨rest, rfl⟩ := Nat.exists_eq_add_of_lt hk
  rw [Nat.add_assoc, h.repeatRuns_add, repeatRuns, hlast]
  match r with
  | .error e => rfl
  | .ok false => rfl
  | .ok true => exact absurd rfl hr

/-- A single run is as good as repeating once. -/
theorem repeatRuns_one (run : Table → Answer Bool) (t : Table) :
    repeatRuns run .ok 1 false t = run t := by
  rw [repeatRuns]
  match run t with
  | (.error e, t) => rfl
  | (.ok true, t) => rfl
  | (.ok false, t) => rfl

/-- What has been effective before counts in the end. -/
theorem repeatRuns_or (run : Table → Answer Bool) (n : Nat) (before any : Bool) (t : Table) :
    repeatRuns run .ok n (before || any) t =
      andThen (repeatRuns run .ok n any t) fun more t => (.ok (before || more), t) := by
  induction n generalizing any t with
  | zero => rfl
  | succ n ih =>
    rw [repeatRuns, repeatRuns]
    match run t with
    | (.error e, t) => rfl
    | (.ok true, t) =>
      have hnext := ih true t
      rwa [Bool.or_true] at hnext
    | (.ok false, t) => rfl

/-- Of so many runs in a row either all take effect, or there is a first that does not. -/
theorem effective_or_last (run : Table → Answer Bool) (n : Nat) (t : Table) :
    (∃ s, Effective run n t s) ∨
      ∃ k < n, ∃ s r s', Effective run k t s ∧ run s = (r, s') ∧ r ≠ .ok true := by
  induction n generalizing t with
  | zero => exact .inl ⟨t, .zero t⟩
  | succ n ih =>
    by_cases hfirst : (run t).1 = .ok true
    · have hrun : run t = (.ok true, (run t).2) := Prod.ext hfirst rfl
      rcases ih (run t).2 with ⟨s, hs⟩ | ⟨k, hk, s, r, s', hs, hlast⟩
      · exact .inl ⟨s, .succ hrun hs⟩
      · exact .inr ⟨k + 1, Nat.succ_lt_succ hk, s, r, s', .succ hrun hs, hlast⟩
    · exact .inr ⟨0, Nat.succ_pos n, t, _, _, .zero t, rfl, hfirst⟩

/-- Where the limit is an error, repeating fails if all runs took effect, or with one of them. -/
theorem repeatRuns_eq_error {limit e : RuntimeError} :
    repeatRuns run (fun _ => .error limit) n any t = (.error e, s) ↔
      (e = limit ∧ Effective run n t s) ∨
        ∃ k < n, ∃ s', Effective run k t s' ∧ run s' = (.error e, s) := by
  constructor
  · intro h
    rcases effective_or_last run n t with ⟨s', hs⟩ | ⟨k, hk, s', r, s₁, hs, hlast, hr⟩
    · rw [hs.repeatRuns_eq] at h
      obtain ⟨⟨⟩, rfl⟩ := Prod.mk.inj h
      exact .inl ⟨rfl, hs⟩
    · rw [hs.repeatRuns_of_lt hk hlast hr] at h
      cases r with
      | error e' =>
        cases h
        exact .inr ⟨k, hk, s', hs, hlast⟩
      | ok b => cases h
  · rintro (⟨rfl, hs⟩ | ⟨k, hk, s', hs, hlast⟩)
    · exact hs.repeatRuns_eq
    · exact hs.repeatRuns_of_lt hk hlast nofun

end Judge

/-! ## Ways that avoid a controlled action -/

namespace Graph

variable {g : Graph} {id : ControlledId} {p q : Performable} {c : ControlledAction}

/-- Running something never comes to a controlled action. -/
def Avoids (g : Graph) (id : ControlledId) (p : Performable) : Prop :=
  ∀ next, p = .controlled next → ¬ ReflTransGen g.Runs next id

/-- What never comes to a controlled action is not this one. -/
theorem Avoids.ne {next : ControlledId} (h : g.Avoids id (.controlled next)) : next ≠ id := by
  rintro rfl
  exact h next rfl .refl

/-- What never comes to a controlled action has no branch that does. -/
theorem Avoids.branch {next : ControlledId} (h : g.Avoids id (.controlled next))
    (hc : g.controlled[next.index]? = some c) (hq : q ∈ c.branches) : g.Avoids id q := by
  rintro after rfl hway
  exact h next rfl (.head ⟨c, hc, hq⟩ hway)

/-- Where nothing runs itself, the branches of a controlled action avoid it. -/
theorem avoids_of_not_cyclic (hg : ¬ g.Cyclic) (hc : g.controlled[id.index]? = some c)
    (hq : q ∈ c.branches) : g.Avoids id q := by
  rintro next rfl hway
  exact hg ⟨id, .head' ⟨c, hc, hq⟩ hway⟩

/-- The graph in which one controlled action repeats in a given way. -/
def withRepetition (g : Graph) (id : ControlledId) (r : Repeat) : Graph :=
  { g with controlled := g.controlled.modify id.index fun c => { c with repetition := r } }

/-- A controlled action that is made to repeat as it does leaves the graph as it is. -/
theorem withRepetition_self (hc : g.controlled[id.index]? = some c) :
    g.withRepetition id c.repetition = g := by
  have hcontrolled : g.controlled.modify id.index
      (fun c' => { c' with repetition := c.repetition }) = g.controlled := by
    refine List.ext_getElem? fun i => ?_
    rw [List.getElem?_modify]
    split
    next h =>
      subst h
      rw [hc]
      rfl
    next => exact Option.map_id'
  rw [withRepetition, hcontrolled]

/-- The other controlled actions are as before. -/
theorem controlledAction_withRepetition {next : ControlledId} (hne : next ≠ id) (r : Repeat) :
    (g.withRepetition id r).controlledAction next = g.controlledAction next := by
  have hindex : id.index ≠ next.index := fun heq => hne (congrArg ControlledId.mk heq.symm)
  exact congrArg (orFail _) (List.getElem?_modify_ne _ _ hindex)

end Graph

namespace Judge

variable {j : Judge} {id : ControlledId} {r : Repeat} {c : ControlledAction} {supplied : List Value}
  {t : Table} {p : Performable}

/-- The judge of a game in which one controlled action repeats in a given way. -/
def repeating (j : Judge) (id : ControlledId) (r : Repeat) : Judge :=
  { j with graph := j.graph.withRepetition id r }

/-- Runs a controlled action as one that repeats in a given way. -/
def runAs (j : Judge) (id : ControlledId) (r : Repeat) (supplied : List Value) (t : Table) :
    Answer Bool :=
  (j.repeating id r).run (.controlled id) supplied t

/-! ## What does not notice the change -/

/-- Conditions do not depend on how a controlled action repeats, at any depth. -/
theorem conditionWithin_repeating (j : Judge) (id : ControlledId) (r : Repeat) (depth : Nat) :
    (j.repeating id r).conditionWithin depth = j.conditionWithin depth := by
  induction depth with
  | zero => rfl
  | succ depth ih =>
    funext q supplied t guard
    rw [conditionWithin, conditionWithin, ih]
    rfl

/-- A condition has the same answer however a controlled action repeats. -/
theorem condition_repeating (guard : Guard) (q : ConditionId) (supplied : List Value) (t : Table) :
    ((j.repeating id r).condition guard q supplied t).1 = (j.condition guard q supplied t).1 := by
  -- `condition` recurses on the room in the graph; with a bound on the depth the two graphs can be
  -- compared step by step.
  have hwithin : ∀ j : Judge, j.conditionWithin (guard.room j.graph + 1) q supplied t guard =
      some ((j.condition guard q supplied t).1, guard) := fun j =>
    conditionWithin_eq (Nat.lt_succ_self _) q supplied t
  have hrepeating := hwithin (j.repeating id r)
  rw [conditionWithin_repeating] at hrepeating
  exact (Prod.mk.inj (Option.some.inj (hrepeating.symm.trans (hwithin j)))).1

/-- A controlled action, run once, does not depend on how one of the graph repeats. -/
theorem branch_repeating (run : Performable → Table → Answer Bool) (c : ControlledAction)
    (supplied : List Value) :
    (j.repeating id r).branch run c supplied = j.branch run c supplied := by
  funext t
  simp only [branch, holds, condition_repeating]

/-- A controlled action of one graph runs the same in the other. -/
theorem controlled_repeating (run : Performable → Table → Answer Bool) (c : ControlledAction)
    (supplied : List Value) :
    (j.repeating id r).controlled run c supplied = j.controlled run c supplied := by
  funext t
  simp only [controlled, branch_repeating]
  rfl

/-- What is run matters only in the branches. -/
theorem branch_congr {run run' : Performable → Table → Answer Bool}
    (h : ∀ q ∈ c.branches, run q = run' q) :
    j.branch run c supplied = j.branch run' c supplied := by
  have htrue : run c.onTrue = run' c.onTrue := h _ List.mem_cons_self
  funext t
  unfold branch
  split
  · rw [htrue]
  · congr 1
    funext value t
    split
    · rw [htrue]
    next _ otherwise hfalse =>
      rw [h otherwise (List.mem_cons_of_mem _ (by simp [hfalse]))]
    · rfl

/-- A controlled action depends only on how its branches run. -/
theorem controlled_congr {run run' : Performable → Table → Answer Bool}
    (h : ∀ q ∈ c.branches, run q = run' q) :
    j.controlled run c supplied = j.controlled run' c supplied := by
  funext t
  simp only [controlled, branch_congr h]

/-- Running what avoids the action goes as before. -/
theorem runWithin_repeating {p : Performable} (hp : j.graph.Avoids id p) (levels : Nat) :
    (j.repeating id r).runWithin supplied levels p = j.runWithin supplied levels p := by
  induction levels generalizing p with
  | zero =>
    cases p with
    | action a => rfl
    | controlled next =>
      funext t
      rw [runWithin, repeating, Graph.controlledAction_withRepetition hp.ne, runWithin]
  | succ levels ih =>
    cases p with
    | action a => rfl
    | controlled next =>
      -- `next` is another action, so it is found as before, and its branches avoid `id` too.
      funext t
      rw [runWithin, runWithin, repeating, Graph.controlledAction_withRepetition hp.ne]
      cases hc : j.graph.controlled[next.index]? with
      | none =>
        rw [Graph.controlledAction, hc]
        rfl
      | some c =>
        rw [Graph.controlledAction, hc]
        have hrun : (j.repeating id r).controlled ((j.repeating id r).runWithin supplied levels) c
            supplied = j.controlled (j.runWithin supplied levels) c supplied := by
          rw [controlled_repeating]
          exact controlled_congr fun q hq => ih (hp.branch hc hq)
        exact congrFun hrun t

/-- Running an action as one that repeats in a given way is repeating its own runs in that way. -/
theorem runAs_eq (hg : ¬ j.graph.Cyclic) (hc : j.graph.controlled[id.index]? = some c)
    (r : Repeat) : j.runAs id r supplied =
      j.controlled (j.runWithin supplied (j.graph.controlled.length - 1))
        { c with repetition := r } supplied := by
  have hlt : id.index < j.graph.controlled.length := (List.getElem?_eq_some_iff.1 hc).1
  have hlevels : (j.repeating id r).graph.controlled.length =
      j.graph.controlled.length - 1 + 1 := by
    rw [repeating, Graph.withRepetition, List.length_modify]
    omega
  have haction : (j.repeating id r).graph.controlledAction id = .ok { c with repetition := r } := by
    rw [Graph.controlledAction, repeating, Graph.withRepetition, List.getElem?_modify_eq, hc]
    rfl
  funext t
  rw [runAs, run, hlevels, runWithin, haction, Answer.ofExcept, Answer.andThen_ok,
    controlled_repeating]
  refine congrFun (controlled_congr fun q hq => runWithin_repeating ?_ _) t
  exact Graph.avoids_of_not_cyclic hg hc hq

/-- A repetition with a count is so many single runs in a row. -/
theorem runAs_times (hg : ¬ j.graph.Cyclic) (hc : j.graph.controlled[id.index]? = some c)
    (n : Nat) :
    j.runAs id (.times n) supplied = repeatRuns (j.runAs id .once supplied) .ok n false := by
  rw [runAs_eq hg hc, runAs_eq hg hc]
  rfl

/-- A repetition until false is single runs in a row, up to the limit, where it fails. -/
theorem runAs_untilFalse (hg : ¬ j.graph.Cyclic) (hc : j.graph.controlled[id.index]? = some c) :
    j.runAs id .untilFalse supplied = repeatRuns (j.runAs id .once supplied)
      (fun _ => .error (.repeatLimit c.name j.maxRepeat)) j.maxRepeat false := by
  rw [runAs_eq hg hc, runAs_eq hg hc]
  rfl

/-! ## Errors of runs -/

section

/-- A condition fails only over an argument, something unknown or a way round. -/
theorem condition_isOfCondition {guard : Guard} {q : ConditionId} :
    FailsOnly RuntimeError.IsOfCondition (j.condition guard q supplied t).1.1 := by
  induction hroom : guard.room j.graph using Nat.strong_induction_on
    generalizing guard q supplied t with
  | _ n ih =>
    unfold condition
    split
    next e he =>
      unfold Guard.enter at he
      split at he <;> cases he
      exact .error trivial
    next inner hinner =>
      split
      next => exact .error trivial
      next c hc =>
        refine Answer.andThen_failsOnly (chain_failsOnly fun s hs t => ?_) fun _ _ => .ok
        exact statement_failsOnly (fun _ => (·.isOfCondition)) fun next _ values t =>
          ih _ (hroom ▸ Guard.room_lt hinner hc) rfl

variable {q : RuntimeError → Prop} {run : Performable → Table → Answer Bool}

/-- A controlled action fails as its condition or as a branch does. -/
theorem branch_failsOnly (hq : ∀ e, e.IsOfCondition → q e)
    (hrun : ∀ p ∈ c.branches, ∀ t, FailsOnly q (run p t).1) :
    FailsOnly q (j.branch run c supplied t).1 := by
  have htrue := hrun c.onTrue List.mem_cons_self
  unfold branch
  split
  · exact htrue t
  · refine Answer.andThen_failsOnly
      (Answer.andThen_failsOnly (condition_isOfCondition.mono hq) fun _ _ => .ok) fun value t => ?_
    split
    · exact htrue t
    next _ otherwise hfalse =>
      exact hrun otherwise (List.mem_cons_of_mem _ (by simp [hfalse])) t
    · exact .ok

/-- Runs in a row fail only as one of them does, or at the limit. -/
theorem repeatRuns_failsOnly {run : Table → Answer Bool}
    {atLimit : Bool → Except RuntimeError Bool} (hrun : ∀ t, FailsOnly q (run t).1)
    (hlimit : ∀ any, FailsOnly q (atLimit any)) {n : Nat} {any : Bool} {t : Table} :
    FailsOnly q (repeatRuns run atLimit n any t).1 := by
  induction n generalizing any t with
  | zero => exact hlimit any
  | succ n ih =>
    refine Answer.andThen_failsOnly (hrun t) fun effective t => ?_
    split
    · exact ih
    · exact .ok

/-- A controlled action fails only as its condition or a branch does, or at its own limit. -/
theorem controlled_failsOnly (hq : ∀ e, e.IsOfCondition → q e)
    (hrun : ∀ p ∈ c.branches, ∀ t, FailsOnly q (run p t).1)
    (hlimit : q (.repeatLimit c.name j.maxRepeat)) :
    FailsOnly q (j.controlled run c supplied t).1 := by
  unfold controlled
  split
  · exact branch_failsOnly hq hrun
  · exact repeatRuns_failsOnly (fun t => branch_failsOnly hq hrun) fun _ => .ok
  · exact repeatRuns_failsOnly (fun t => branch_failsOnly hq hrun) fun _ => .error hlimit

end

/-! ## Errors over the limit -/

/-- Running what avoids a controlled action never fails over its limit, since no other has its
name. -/
theorem runWithin_notLimitOf (hnames : (j.graph.controlled.map (·.name)).Nodup)
    (hc : j.graph.controlled[id.index]? = some c) {p : Performable} (hp : j.graph.Avoids id p)
    (levels : Nat) (t : Table) :
    FailsOnly (·.NotLimitOf c.name) (j.runWithin supplied levels p t).1 := by
  have haction : ∀ (a : ActionId) (t : Table), FailsOnly (·.NotLimitOf c.name)
      (andThen (.ofExcept t (j.graph.action a)) fun a t =>
        j.effect a.verb a.parameters supplied t).1 := fun a t =>
    Answer.andThen_failsOnly (.orFail trivial) fun _ _ =>
      effect_failsOnly.mono fun _ h => h.isOfCondition.notLimitOf
  induction levels generalizing p t with
  | zero =>
    cases p with
    | action a => exact haction a t
    | controlled next => exact Answer.andThen_failsOnly (.orFail trivial) fun _ _ => .error trivial
  | succ levels ih =>
    cases p with
    | action a => exact haction a t
    | controlled next =>
      rw [runWithin, Graph.controlledAction]
      cases hnext : j.graph.controlled[next.index]? with
      | none => exact .error trivial
      | some c' =>
        refine controlled_failsOnly (fun _ => (·.notLimitOf))
          (fun q hq t => ih (hp.branch hnext hq) t) fun hname => ?_
        refine hp.ne (congrArg ControlledId.mk ((List.getElem?_inj ?_ hnames).1 ?_))
        · rw [List.length_map]
          exact (List.getElem?_eq_some_iff.1 hnext).1
        · rw [List.getElem?_map, List.getElem?_map, hnext, hc]
          exact congrArg some hname

/-- A single run never fails over the limit of the action itself. -/
theorem runAs_once_notLimitOf (hg : ¬ j.graph.Cyclic)
    (hnames : (j.graph.controlled.map (·.name)).Nodup)
    (hc : j.graph.controlled[id.index]? = some c) (t : Table) :
    FailsOnly (·.NotLimitOf c.name) (j.runAs id .once supplied t).1 := by
  rw [runAs_eq hg hc]
  exact branch_failsOnly (fun _ => (·.notLimitOf)) fun q hq t =>
    runWithin_notLimitOf hnames hc (Graph.avoids_of_not_cyclic hg hc hq) _ t

/-- Repeating up to the first run without effect fails over the limit of the action if so many runs
take effect, and otherwise with an error of a run, which is not over that limit. -/
theorem runAs_untilFalse_eq_error (hg : ¬ j.graph.Cyclic)
    (hnames : (j.graph.controlled.map (·.name)).Nodup)
    (hc : j.graph.controlled[id.index]? = some c) {e : RuntimeError} {s : Table} :
    j.runAs id .untilFalse supplied t = (.error e, s) ↔
      (e = .repeatLimit c.name j.maxRepeat ∧
        Effective (j.runAs id .once supplied) j.maxRepeat t s) ∨
      (e.NotLimitOf c.name ∧ ∃ k < j.maxRepeat, ∃ s',
        Effective (j.runAs id .once supplied) k t s' ∧
          j.runAs id .once supplied s' = (.error e, s)) := by
  rw [runAs_untilFalse hg hc, repeatRuns_eq_error]
  refine or_congr_right ⟨fun hrun => ⟨?_, hrun⟩, And.right⟩
  obtain ⟨_, _, s', -, herror⟩ := hrun
  exact runAs_once_notLimitOf hg hnames hc s' e (congrArg Prod.fst herror)

/-! ## All ways of repeating agree -/

/-- **The ways of repeating agree.** Let a controlled action of a compiled graph, with whatever
condition and branches, be run as one that runs once, a number of times, or up to the first run
without effect.

A number of times that is one is once. If some runs take effect and the next one has none, repeating
ends there, for any greater number of times and below the limit alike, and counts as an effect
unless that was the first run; if the next one fails, all pass its error on. If so many runs take
effect, running so many times and some more is running so many times and then some more. And
repeating up to the first run without effect fails over its limit exactly if as many runs as the
limit all take effect; any other error is one of a run, and does not name the action. -/
theorem repetitions_agree {doc : Document} {l : Layout} (h : Graph.compile doc l = .ok j.graph)
    (hc : j.graph.controlled[id.index]? = some c) (supplied : List Value) (t : Table) :
    let once := j.runAs id .once supplied
    let times := fun n => j.runAs id (.times n) supplied
    let untilFalse := j.runAs id .untilFalse supplied
    j.run (.controlled id) supplied t = j.runAs id c.repetition supplied t ∧
    times 1 t = once t ∧
    (∀ k s s', Effective once k t s → once s = (.ok false, s') →
      (∀ n, k < n → times n t = (.ok (k != 0), s')) ∧
      (k < j.maxRepeat → untilFalse t = (.ok (k != 0), s'))) ∧
    (∀ k s s' e, Effective once k t s → once s = (.error e, s') →
      (∀ n, k < n → times n t = (.error e, s')) ∧
      (k < j.maxRepeat → untilFalse t = (.error e, s'))) ∧
    (∀ m s, Effective once m t s → times m t = (.ok (m != 0), s) ∧ ∀ n,
      times (m + n) t = andThen (times m t) fun first t =>
        andThen (times n t) fun more t => (.ok (first || more), t)) ∧
    ((∃ s, untilFalse t = (.error (.repeatLimit c.name j.maxRepeat), s)) ↔
      ∃ s, Effective once j.maxRepeat t s) ∧
    ∀ e s, untilFalse t = (.error e, s) ↔
      (e = .repeatLimit c.name j.maxRepeat ∧ Effective once j.maxRepeat t s) ∨
        (e.NotLimitOf c.name ∧
          ∃ k < j.maxRepeat, ∃ s', Effective once k t s' ∧ once s' = (.error e, s)) := by
  have hacyclic := Graph.not_cyclic_of_compile h
  have hnames := (Graph.distinct_of_compile h).controlled
  intro once times untilFalse
  have htimes : ∀ n, times n = repeatRuns once .ok n false := runAs_times hacyclic hc
  have huntil : untilFalse = repeatRuns once
      (fun _ => .error (.repeatLimit c.name j.maxRepeat)) j.maxRepeat false :=
    runAs_untilFalse hacyclic hc
  simp only [htimes]
  refine ⟨?_, ?_, fun k s s' hs hlast => ?_, fun k s s' e hs hlast => ?_, fun m s hs => ?_,
    exists_congr fun s => ?_, fun e s => runAs_untilFalse_eq_error hacyclic hnames hc⟩
  · rw [runAs, repeating, Graph.withRepetition_self hc]
  · exact repeatRuns_one once t
  · rw [huntil]
    exact ⟨fun n hk => hs.repeatRuns_of_lt hk hlast nofun,
      fun hk => hs.repeatRuns_of_lt hk hlast nofun⟩
  · rw [huntil]
    exact ⟨fun n hk => hs.repeatRuns_of_lt hk hlast nofun,
      fun hk => hs.repeatRuns_of_lt hk hlast nofun⟩
  · refine ⟨hs.repeatRuns_eq, fun n => ?_⟩
    rw [hs.repeatRuns_add, hs.repeatRuns_eq, Answer.andThen_ok, Bool.false_or,
      ← repeatRuns_or, Bool.or_false]
  · refine (runAs_untilFalse_eq_error hacyclic hnames hc).trans ?_
    exact ⟨fun h => h.elim And.right fun hrun => absurd rfl hrun.1, fun hs => .inl ⟨rfl, hs⟩⟩

/-- Rules in which cards are taken in pairs, as long as there are any. -/
def roundsRules : Document where
  kind := .rules
  name := "rounds"
  lines := [
    "controlled-action rounds", "allow pair", "repeat",
    "controlled-action pair", "allow take", "repeat 2", "end-controlled-action",
    "action take", "put-top pile.draw pile.hand", "end-action"]

/-- The judge of these rules, which allows two rounds. -/
def twoRounds : Judge where
  graph := {
    aliases := []
    actions := [⟨"take", none, .putTop, [.pile ⟨⟨1⟩, .current⟩, .pile ⟨⟨0⟩, .current⟩]⟩]
    controlled := [⟨"rounds", none, none, .controlled ⟨1⟩, none, .untilFalse⟩,
      ⟨"pair", none, none, .action ⟨0⟩, none, .times 2⟩]
    conditions := []
    phases := [] }
  ranking := .flat
  maxRepeat := 2

/-- One player with some cards, and a pile to take from. -/
def handAndDraw (hand draw : List Card) : Table :=
  .fresh ⟨[⟨"hand", ⟨0⟩, some .first, { owner := .player }, hand⟩, ⟨"draw", ⟨1⟩, none, {}, draw⟩],
    []⟩ [.seated "ann" [⟨0⟩]] .clockwise (.ofSeed 0)

/-- Three cards are to be taken. -/
def threeToTake : Table := handAndDraw [] [⟨0, "a", none⟩, ⟨1, "b", none⟩, ⟨2, "c", none⟩]

/-- With three cards two rounds take effect, the second of them with one card, and a third one would
have none. So the rounds exceed the limit, and three of them are as good as two. -/
theorem twoRounds_repetitions_agree :
    (∃ l, Layout.compile Graph.drawingBoard = .ok l ∧
      Graph.compile roundsRules l = .ok twoRounds.graph) ∧
    ∃ s, Effective (twoRounds.runAs ⟨0⟩ .once []) 2 threeToTake s ∧
      s.board.piles.map (·.size) = [3, 0] ∧
      twoRounds.run (.controlled ⟨0⟩) [] threeToTake = (.error (.repeatLimit "rounds" 2), s) ∧
      twoRounds.runAs ⟨0⟩ (.times 3) [] threeToTake = (.ok true, s) := by
  have hcompile : (Layout.compile Graph.drawingBoard >>= Graph.compile roundsRules) =
      .ok twoRounds.graph := by decide +kernel
  obtain ⟨l, hl, hg⟩ := bind_ok.1 hcompile
  have hrounds : twoRounds.graph.controlled[(ControlledId.mk 0).index]? =
      some ⟨"rounds", none, none, .controlled ⟨1⟩, none, .untilFalse⟩ := rfl
  obtain ⟨hrun, -, hstops, -, -, -, herrors⟩ := repetitions_agree hg hrounds [] threeToTake
  have hfirst : twoRounds.runAs ⟨0⟩ .once [] threeToTake =
      (.ok true, handAndDraw [⟨2, "c", none⟩, ⟨1, "b", none⟩] [⟨0, "a", none⟩]) := rfl
  have hsecond : twoRounds.runAs ⟨0⟩ .once []
      (handAndDraw [⟨2, "c", none⟩, ⟨1, "b", none⟩] [⟨0, "a", none⟩]) =
      (.ok true, handAndDraw [⟨2, "c", none⟩, ⟨1, "b", none⟩, ⟨0, "a", none⟩] []) := rfl
  have htwo := Effective.succ hfirst (.succ hsecond (.zero _))
  obtain ⟨hthree, -⟩ := hstops 2 _ _ htwo rfl
  have hlimit := (herrors _ _).2 (.inl ⟨rfl, htwo⟩)
  exact ⟨⟨l, hl, hg⟩, _, htwo, rfl, hrun.trans hlimit, hthree 3 (by decide)⟩

end Judge

end HouseRules
