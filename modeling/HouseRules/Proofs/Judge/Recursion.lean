import Mathlib.Data.List.Chain
import Mathlib.Data.List.TakeWhile
import Mathlib.Logic.Relation
import HouseRules.Proofs.Judge

/-!
# Conditions that ask one another

Conditions may refer to one another in any way, also back to themselves, and their evaluation still
ends. To say so without leaning on the recursion of `Judge.condition`, `Judge.conditionWithin`
evaluates with a bound on the depth and passes one guard along, from each statement to the next and
through everything that is asked on the way. `conditionWithin_eq` says that a depth of one more than
there are conditions is always enough, that the answer is the same, and that the guard comes back as
it was, after an error too.

The guard's stack is always a way through the graph along direct references. So an error over a
circular condition tells a real way round (`Graph.Tells`), and where no condition within reach is
inside itself there is no such error, however often conditions are asked again.

Reference: `Evaluator.condition`, `RecursionGuard` (specification 4.5, 8).
-/

namespace HouseRules

open Relation (ReflTransGen TransGen)

/-! ## Passing the guard along -/

/-- An answer and the guard that it leaves; `none` if the depth did not do. -/
abbrev Guarded (α : Type) := Option (Answer α × Guard)

/-- Goes on with a result and the guard that it left; an error ends everything. -/
def Guarded.andThen {α β : Type} (r : Guarded α) (next : α → Table → Guard → Guarded β) :
    Guarded β :=
  match r with
  | some ((.ok a, t), guard) => next a t guard
  | some ((.error e, t), guard) => some ((.error e, t), guard)
  | none => none

/-- Where the guard comes back as it was, going on is going on with the answer. -/
theorem Guarded.andThen_eq {α β : Type} {r : Answer α} {guard : Guard}
    {next : α → Table → Answer β} {nextUnder : α → Table → Guard → Guarded β}
    (h : ∀ a t, nextUnder a t guard = some (next a t, guard)) :
    Guarded.andThen (some (r, guard)) nextUnder = some (Answer.andThen r next, guard) := by
  obtain ⟨e | a, t⟩ := r
  · rfl
  · exact h a t

namespace Judge

/-- As `chainFrom`, with the guard passed from statement to statement. -/
def chainFromUnder (ask : Statement → Table → Guard → Guarded Bool) (sofar : Bool)
    (pending : Connective) : List Statement → Table → Guard → Guarded Bool
  | [], t, guard => some ((.ok sofar, t), guard)
  | s :: rest, t, guard =>
    if pending.decides sofar then some ((.ok sofar, t), guard)
    else Guarded.andThen (ask s t guard) fun next t guard =>
      chainFromUnder ask (pending.combine sofar next) (s.connective.getD .and) rest t guard

/-- As `chain`, with the guard passed from statement to statement. -/
def chainUnder (ask : Statement → Table → Guard → Guarded Bool) :
    List Statement → Table → Guard → Guarded Bool
  | [], t, guard => some ((.ok true, t), guard)
  | s :: rest, t, guard =>
    Guarded.andThen (ask s t guard) fun first t guard =>
      chainFromUnder ask first (s.connective.getD .and) rest t guard

/-- As `statement`, where `ask` evaluates other conditions under a guard. -/
def statementUnder (j : Judge) (ask : ConditionId → List Value → Table → Guard → Guarded Bool)
    (condition : String) (supplied : List Value) (s : Statement) (t : Table) (guard : Guard) :
    Guarded Bool :=
  let answer :=
    match s.question with
    | .call verb parameters => some (j.effect verb parameters supplied t, guard)
    | .condition id none => ask id supplied t guard
    | .condition id (some tokens) =>
      let values := Answer.ofExcept t (Token.resolveAll t condition supplied tokens).1
      Guarded.andThen (some (values, guard)) (ask id)
  Guarded.andThen answer fun value t guard => some ((.ok (value != s.inverted), t), guard)

/-- Evaluates a condition with at most `depth` conditions inside one another. What it takes off the
guard at the end is the innermost of what its statements have left there. -/
def conditionWithin (j : Judge) : (depth : Nat) → ConditionId → List Value → Table → Guard →
    Guarded Bool
  | 0, _, _, _, _ => none
  | depth + 1, id, supplied, t, guard =>
    match guard.enter j.graph id with
    | .error e => some ((.error e, t), guard)
    | .ok inner =>
      match j.graph.conditions[id.index]? with
      | none => some ((.error (.unknownComponent "condition" id.describe), t), inner.exit)
      | some c =>
        let ask := j.statementUnder (conditionWithin j depth) c.name supplied
        (chainUnder ask c.statements t inner).map fun (verdict, left) =>
          (Answer.andThen verdict fun value t => (.ok (value != c.inverted), t), left.exit)

/-! ## Evaluation ends and gives the guard back -/

variable {j : Judge}

/-- Where every statement gives the guard back, so does the rest of a chain, with the same
answer. -/
theorem chainFromUnder_eq {ask : Statement → Table → Answer Bool}
    {askUnder : Statement → Table → Guard → Guarded Bool} {guard : Guard}
    {statements : List Statement}
    (hask : ∀ s ∈ statements, ∀ t, askUnder s t guard = some (ask s t, guard)) {sofar : Bool}
    {pending : Connective} {t : Table} :
    chainFromUnder askUnder sofar pending statements t guard =
      some (chainFrom ask sofar pending statements t, guard) := by
  induction statements generalizing sofar pending t with
  | nil => rfl
  | cons s rest ih =>
    unfold chainFromUnder chainFrom
    split
    · rfl
    · rw [hask s List.mem_cons_self t]
      exact Guarded.andThen_eq fun _ _ => ih fun s hs => hask s (List.mem_cons_of_mem _ hs)

/-- Where every statement gives the guard back, so does a chain, with the same answer. -/
theorem chainUnder_eq {ask : Statement → Table → Answer Bool}
    {askUnder : Statement → Table → Guard → Guarded Bool} {guard : Guard}
    {statements : List Statement}
    (hask : ∀ s ∈ statements, ∀ t, askUnder s t guard = some (ask s t, guard)) {t : Table} :
    chainUnder askUnder statements t guard = some (chain ask statements t, guard) := by
  cases statements with
  | nil => rfl
  | cons s rest =>
    rw [chainUnder, chain, hask s List.mem_cons_self t]
    exact Guarded.andThen_eq fun _ _ =>
      chainFromUnder_eq fun s hs => hask s (List.mem_cons_of_mem _ hs)

/-- Where the conditions it asks give the guard back, so does a statement, with the same answer. -/
theorem statementUnder_eq {ask : ConditionId → List Value → Table → Answer Bool}
    {askUnder : ConditionId → List Value → Table → Guard → Guarded Bool} {guard : Guard}
    (hask : ∀ id values t, askUnder id values t guard = some (ask id values t, guard))
    {condition : String} {supplied : List Value} {s : Statement} {t : Table} :
    j.statementUnder askUnder condition supplied s t guard =
      some (j.statement ask condition supplied s t, guard) := by
  have hinvert : ∀ answer : Answer Bool,
      Guarded.andThen (some (answer, guard)) (fun value t guard =>
        some ((.ok (value != s.inverted), t), guard)) =
      some (Answer.andThen answer fun value t => (.ok (value != s.inverted), t), guard) :=
    fun _ => Guarded.andThen_eq fun _ _ => rfl
  obtain ⟨inverted, question, connective⟩ := s
  match question with
  | .call verb parameters => exact hinvert _
  | .condition id none =>
    exact (congrArg (Guarded.andThen · _) (hask id supplied t)).trans (hinvert _)
  | .condition id (some tokens) =>
    exact (congrArg (Guarded.andThen · _) (Guarded.andThen_eq (hask id))).trans (hinvert _)

/-- A condition takes off the guard what it has put on it. -/
theorem condition_guard (guard : Guard) (id : ConditionId) (supplied : List Value) (t : Table) :
    (j.condition guard id supplied t).2 = guard := by
  unfold condition
  split
  · rfl
  next inner hinner =>
    split <;> exact Guard.exit_of_enter hinner

/-- As deep as the guard has room, and one deeper to find that it has none, evaluation passing the
guard along gives the answer of the judge, and the guard back. -/
theorem conditionWithin_eq {depth : Nat} {guard : Guard} (hdepth : guard.room j.graph < depth)
    (id : ConditionId) (supplied : List Value) (t : Table) :
    j.conditionWithin depth id supplied t guard =
      some ((j.condition guard id supplied t).1, guard) := by
  induction depth generalizing guard id supplied t with
  | zero => exact absurd hdepth (Nat.not_lt_zero _)
  | succ depth ih =>
    unfold conditionWithin condition
    cases hinner : guard.enter j.graph id with
    | error e => rfl
    | ok inner =>
      cases hc : j.graph.conditions[id.index]? with
      | none => simp only [Guard.exit_of_enter hinner]
      | some c =>
        -- What is asked from here on is asked with one condition more under way.
        have hroom : inner.room j.graph < depth :=
          Nat.lt_of_lt_of_le (Guard.room_lt hinner hc) (Nat.le_of_lt_succ hdepth)
        have hchain : chainUnder (j.statementUnder (conditionWithin j depth) c.name supplied)
            c.statements t inner =
            some (chain (j.statement (fun id values t => (j.condition inner id values t).1) c.name
              supplied) c.statements t, inner) :=
          chainUnder_eq fun s _ t => statementUnder_eq (ih hroom)
        simp only [hchain, Option.map_some, Guard.exit_of_enter hinner]

end Judge

/-- The guard has no more room than there are conditions. -/
theorem Guard.room_le (graph : Graph) (guard : Guard) :
    guard.room graph ≤ graph.conditions.length :=
  Trail.room_le _ _

/-! ## Ways round -/

/-- If the error is about a circular condition, it tells a way along direct references from a
condition within reach of `root` back to that condition. -/
def Graph.Tells (g : Graph) (root : ConditionId) : RuntimeError → Prop
  | .circularCondition name chain =>
    ∃ a between, ReflTransGen g.Refers root a ∧ List.IsChain g.Refers (a :: between ++ [a]) ∧
      name = Guard.label g a ∧ chain = (a :: between ++ [a]).map (Guard.label g)
  | _ => True

/-- An error about an argument tells of no circular condition. -/
theorem Graph.Tells.of_isArgument {g : Graph} {root : ConditionId} {e : RuntimeError}
    (h : e.IsArgument) : g.Tells root e := by
  cases e <;> first | exact h.elim | trivial

/-- A way that begins and ends somewhere leads from one to the other. -/
theorem transGen_of_isChain {α : Type} {r : α → α → Prop} {a b : α} {between : List α}
    (h : List.IsChain r (a :: between ++ [b])) : TransGen r a b := by
  induction between generalizing a with
  | nil => exact .single (List.isChain_cons_cons.1 h).1
  | cons c between ih =>
    obtain ⟨hac, hrest⟩ := List.isChain_cons_cons.1 h
    exact .head hac (ih hrest)

namespace Guard

/-- The conditions under way with the one to be begun are a way through the graph, all of it within
reach of `root`. -/
structure Leads (g : Graph) (root : ConditionId) (guard : Guard) (id : ConditionId) : Prop where
  isChain : List.IsChain g.Refers (guard.stack ++ [id])
  reached : ∀ a ∈ guard.stack ++ [id], ReflTransGen g.Refers root a

variable {g : Graph} {root id : ConditionId} {guard : Guard}

/-- From an empty guard the way is the condition alone. -/
theorem Leads.empty : Leads g id .empty id :=
  ⟨.singleton id, fun a ha => by rw [List.mem_singleton.1 ha]⟩

/-- A way goes on to what its last condition refers to. -/
theorem Leads.enter {inner : Guard} {next : ConditionId} (h : Leads g root guard id)
    (hinner : guard.enter g id = .ok inner) (hnext : g.Refers id next) :
    Leads g root inner next := by
  have hstack := (stack_of_enter hinner).2
  have hid : ReflTransGen g.Refers root id :=
    h.reached id (List.mem_append_right _ List.mem_cons_self)
  constructor
  · rw [hstack]
    refine h.isChain.append (.singleton next) fun a ha b hb => ?_
    rw [List.getLast?_concat, Option.mem_some_iff] at ha
    rw [List.head?_cons, Option.mem_some_iff] at hb
    exact ha ▸ hb ▸ hnext
  · intro a ha
    rw [hstack, List.mem_append, List.mem_singleton] at ha
    rcases ha with ha | rfl
    · exact h.reached a ha
    · exact hid.tail hnext

/-- What is refused is a way round, and the error tells it. -/
theorem Leads.tells {e : RuntimeError} (h : Leads g root guard id)
    (he : guard.enter g id = .error e) : g.Tells root e := by
  unfold Guard.enter at he
  split at he
  next hmem =>
    obtain rfl := Except.error.inj he
    -- The part of the stack from the condition on begins with it.
    obtain ⟨between, hbetween⟩ : ∃ between, guard.stack.dropWhile (· != id) = id :: between := by
      cases hdrop : guard.stack.dropWhile (· != id) with
      | nil =>
        have hall := (List.dropWhile_eq_nil_iff.1 hdrop) id (List.contains_iff_mem.1 hmem)
        simp at hall
      | cons a between =>
        have hhead := List.head?_dropWhile_not (· != id) guard.stack
        rw [hdrop] at hhead
        exact ⟨between, by simpa using hhead⟩
    refine ⟨id, between, h.reached id (List.mem_append_right _ List.mem_cons_self), ?_, rfl, ?_⟩
    · refine h.isChain.suffix ?_
      obtain ⟨before, hbefore⟩ := List.dropWhile_suffix (· != id) (l := guard.stack)
      exact ⟨before, by rw [← hbetween, ← List.append_assoc, hbefore]⟩
    · rw [Guard.chain, hbetween]
  next => cases he

end Guard

/-! ## Errors of conditions -/

/-- Two halves together fail only as one of them does. -/
theorem Answer.andThen_failsOnly {α β : Type} {q : RuntimeError → Prop} {r : Answer α}
    {next : α → Table → Answer β} (hr : FailsOnly q r.1)
    (hnext : ∀ a t, FailsOnly q (next a t).1) : FailsOnly q (Answer.andThen r next).1 := by
  obtain ⟨e | a, t⟩ := r
  · exact .error (hr e rfl)
  · exact hnext a t

namespace Judge

variable {j : Judge} {q : RuntimeError → Prop}

/-- A verb fails only over its arguments. -/
theorem effect_failsOnly {verb : Verb} {parameters : List Token} {supplied : List Value}
    {t : Table} : FailsOnly RuntimeError.IsArgument (j.effect verb parameters supplied t).1 := by
  unfold effect
  split
  · exact .ok
  next e he => exact .error (call_failsOnly e he)

/-- The rest of a chain fails only as one of its statements does. -/
theorem chainFrom_failsOnly {ask : Statement → Table → Answer Bool} {statements : List Statement}
    (hask : ∀ s ∈ statements, ∀ t, FailsOnly q (ask s t).1) {sofar : Bool} {pending : Connective}
    {t : Table} : FailsOnly q (chainFrom ask sofar pending statements t).1 := by
  induction statements generalizing sofar pending t with
  | nil => exact .ok
  | cons s rest ih =>
    unfold chainFrom
    split
    · exact .ok
    · exact Answer.andThen_failsOnly (hask s List.mem_cons_self t) fun _ _ =>
        ih fun s hs => hask s (List.mem_cons_of_mem _ hs)

/-- A chain fails only as one of its statements does. -/
theorem chain_failsOnly {ask : Statement → Table → Answer Bool} {statements : List Statement}
    (hask : ∀ s ∈ statements, ∀ t, FailsOnly q (ask s t).1) {t : Table} :
    FailsOnly q (chain ask statements t).1 := by
  cases statements with
  | nil => exact .ok
  | cons s rest =>
    exact Answer.andThen_failsOnly (hask s List.mem_cons_self t) fun _ _ =>
      chainFrom_failsOnly fun s hs => hask s (List.mem_cons_of_mem _ hs)

/-- A statement fails only over its arguments, or as the condition that it asks does. -/
theorem statement_failsOnly (hq : ∀ e, e.IsArgument → q e)
    {ask : ConditionId → List Value → Table → Answer Bool} {condition : String}
    {supplied : List Value} {s : Statement}
    (hask : ∀ id, s.question.reference? = some id → ∀ values t, FailsOnly q (ask id values t).1)
    {t : Table} : FailsOnly q (j.statement ask condition supplied s t).1 := by
  unfold statement
  refine Answer.andThen_failsOnly ?_ fun _ _ => .ok
  split
  · exact effect_failsOnly.mono hq
  next id heq => exact hask id (by rw [heq]; rfl) supplied t
  next id tokens heq =>
    have hvalues := Token.resolveAll_failsOnly t condition supplied tokens
    exact Answer.andThen_failsOnly (hvalues.mono hq) fun values t =>
      hask id (by rw [heq]; rfl) values t

/-- Where the conditions under way are a way through the graph, an error over a circular condition
tells a way round. -/
theorem condition_failsOnly {root : ConditionId} {guard : Guard} {id : ConditionId}
    (h : Guard.Leads j.graph root guard id) {supplied : List Value} {t : Table} :
    FailsOnly (j.graph.Tells root) (j.condition guard id supplied t).1.1 := by
  induction hroom : guard.room j.graph using Nat.strong_induction_on
    generalizing guard id supplied t with
  | _ n ih =>
    unfold condition
    split
    next e he => exact .error (h.tells he)
    next inner hinner =>
      split
      next => exact .error trivial
      next c hc =>
        refine Answer.andThen_failsOnly (chain_failsOnly fun s hs t => ?_) fun _ _ => .ok
        refine statement_failsOnly (fun _ => .of_isArgument) fun next hnext values t => ?_
        have hnext := h.enter hinner (.of_statement hc hs hnext)
        exact ih _ (hroom ▸ Guard.room_lt hinner hc) hnext rfl

/-- Evaluating a condition of any graph ends, however the conditions refer to one another: a depth
of one more than there are conditions does for passing the guard along, whatever it holds, and the
guard comes back as it was beside the answer of the judge. An error over a circular condition, of an
evaluation that began with none under way, tells a way along direct references from the condition
that it names back to it; and where no condition within reach leads back to itself, there is no
such error. -/
theorem condition_ends_and_tells_cycles (j : Judge) (id : ConditionId) (supplied : List Value)
    (t : Table) :
    (∀ guard depth, j.graph.conditions.length < depth →
      j.conditionWithin depth id supplied t guard =
        some ((j.condition guard id supplied t).1, guard)) ∧
    (∀ guard, (j.condition guard id supplied t).2 = guard) ∧
    (∀ name chain,
      (j.condition .empty id supplied t).1.1 = .error (.circularCondition name chain) →
      ∃ a between, ReflTransGen j.graph.Refers id a ∧
        List.IsChain j.graph.Refers (a :: between ++ [a]) ∧
        name = Guard.label j.graph a ∧
        chain = (a :: between ++ [a]).map (Guard.label j.graph)) ∧
    ((¬ ∃ a, ReflTransGen j.graph.Refers id a ∧ TransGen j.graph.Refers a a) →
      ∀ name chain,
        (j.condition .empty id supplied t).1.1 ≠ .error (.circularCondition name chain)) := by
  have htells : ∀ name chain,
      (j.condition .empty id supplied t).1.1 = .error (.circularCondition name chain) →
        j.graph.Tells id (.circularCondition name chain) := fun _ _ he =>
    condition_failsOnly Guard.Leads.empty _ he
  refine ⟨fun guard depth hdepth => ?_, fun guard => condition_guard guard id supplied t,
    htells, fun hnone name chain he => ?_⟩
  · exact conditionWithin_eq (Nat.lt_of_le_of_lt (guard.room_le j.graph) hdepth) id supplied t
  · obtain ⟨a, between, hreached, hway, -⟩ := htells name chain he
    exact hnone ⟨a, hreached, transGen_of_isChain hway⟩

/-- A judge of two conditions that ask each other, and of one that asks another along two paths. -/
def roundAndAbout : Judge where
  graph :=
    let ask (id : Nat) (connective : Option Connective) : Statement :=
      ⟨false, .condition ⟨id⟩ none, connective⟩
    { aliases := [], actions := [], controlled := [], phases := []
      conditions := [⟨"here", [ask 1 none], false⟩, ⟨"there", [ask 0 none], false⟩,
        ⟨"both", [ask 3 (some .and), ask 4 none], false⟩, ⟨"left", [ask 5 none], false⟩,
        ⟨"right", [ask 5 none], false⟩, ⟨"shared", [], true⟩] }
  ranking := .flat
  maxRepeat := 1

/-- From the third condition on, ways lead only to later ones. -/
theorem roundAndAbout_later {a b : ConditionId} (ha : 2 ≤ a.index)
    (h : TransGen roundAndAbout.graph.Refers a b) : a.index < b.index := by
  have hstep : ∀ i < 6, 2 ≤ i → ∀ c ∈ roundAndAbout.graph.conditions[i]?,
      ∀ b ∈ c.references, i < b.index := by decide
  have hrefers : ∀ {a b : ConditionId}, 2 ≤ a.index → roundAndAbout.graph.Refers a b →
      a.index < b.index := fun ha ⟨c, hc, hb⟩ =>
    hstep _ (List.getElem?_eq_some_iff.1 hc).1 ha c hc _ hb
  induction h with
  | single h => exact hrefers ha h
  | tail _ h ih => exact ih.trans (hrefers (ha.trans ih.le) h)

/-- Two conditions that ask each other are told with the way round; one asked along two paths is
not. -/
theorem roundAndAbout_ends_and_tells_cycles :
    let t := Table.fresh ⟨[], []⟩ [] .clockwise (.ofSeed 0)
    roundAndAbout.conditionWithin 7 ⟨0⟩ [] t .empty =
        some ((.error (.circularCondition "here" ["here", "there", "here"]), t), .empty) ∧
      (∃ a between, ReflTransGen roundAndAbout.graph.Refers ⟨0⟩ a ∧
        List.IsChain roundAndAbout.graph.Refers (a :: between ++ [a]) ∧
        "here" = Guard.label roundAndAbout.graph a ∧
        ["here", "there", "here"] =
          (a :: between ++ [a]).map (Guard.label roundAndAbout.graph)) ∧
      ∀ name chain, (roundAndAbout.condition .empty ⟨2⟩ [] t).1.1 ≠
        .error (.circularCondition name chain) := by
  intro t
  obtain ⟨hends, -, htells, -⟩ := condition_ends_and_tells_cycles roundAndAbout ⟨0⟩ [] t
  obtain ⟨-, -, -, hnone⟩ := condition_ends_and_tells_cycles roundAndAbout ⟨2⟩ [] t
  have hwithin : roundAndAbout.conditionWithin 7 ⟨0⟩ [] t .empty =
      some ((.error (.circularCondition "here" ["here", "there", "here"]), t), .empty) := rfl
  have hcondition := (hends .empty 7 (by decide)).symm.trans hwithin
  refine ⟨hwithin, htells _ _ ?_, hnone ?_⟩
  · exact congrArg (fun answer => answer.1.1) (Option.some.inj hcondition)
  · rintro ⟨a, hreached, hround⟩
    have hle : 2 ≤ a.index := by
      rcases Relation.reflTransGen_iff_eq_or_transGen.1 hreached with rfl | hreached
      · exact Nat.le_refl _
      · exact (roundAndAbout_later (Nat.le_refl _) hreached).le
    exact Nat.lt_irrefl _ (roundAndAbout_later hle hround)

end Judge

end HouseRules
