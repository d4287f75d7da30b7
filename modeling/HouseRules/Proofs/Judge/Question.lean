import Mathlib.Logic.Relation
import HouseRules.Proofs.Judge

/-!
# Conditions that only ask

Some verbs change the table when they are called and some only answer (`Verb.onlyAsks`). A condition
may call either, so asking it can be a move. Where every condition within reach of one calls only
verbs of the second sort (`Graph.OnlyAsks`), evaluating it leaves the table as it is, whatever the
verdict and even if there is none (`Judge.condition_table`).
-/

namespace HouseRules

open Relation (ReflTransGen)

/-- Whether a verb answers and changes nothing. -/
def Verb.onlyAsks : Verb → Bool
  | .alike | .sameFace | .sameGroup | .sameRank | .compareRank | .checkRank | .compareSizeTo
  | .compareSizes | .checkSize | .checkIfEmpty | .checkIfContains | .getSize => true
  | _ => false

/-- Whether a question calls no other verb. -/
def Question.onlyAsks : Question → Bool
  | .call verb _ => verb.onlyAsks
  | .condition _ _ => true

/-- A condition calls only verbs that change nothing. -/
def Condition.OnlyAsks (c : Condition) : Prop := ∀ s ∈ c.statements, s.question.onlyAsks = true

/-- Whether a condition only asks can be checked statement by statement. -/
instance (c : Condition) : Decidable c.OnlyAsks :=
  inferInstanceAs (Decidable (∀ s ∈ c.statements, s.question.onlyAsks = true))

/-- So does every condition that is reached from one. -/
def Graph.OnlyAsks (g : Graph) (root : ConditionId) : Prop :=
  ∀ a, ReflTransGen g.Refers root a → ∀ c, g.conditions[a.index]? = some c → c.OnlyAsks

/-- Where all conditions only ask, so does what one leads to. -/
theorem Graph.OnlyAsks.of_forall {g : Graph} (h : ∀ c ∈ g.conditions, c.OnlyAsks)
    (root : ConditionId) : g.OnlyAsks root := fun _ _ c hc => h c (List.mem_of_getElem? hc)

/-- What a condition refers to reaches less than it does. -/
theorem Graph.OnlyAsks.next {g : Graph} {a b : ConditionId} (h : g.OnlyAsks a)
    (hab : g.Refers a b) : g.OnlyAsks b := fun c hbc => h c (.head hab hbc)

/-- The operation of a verb that only asks leaves the table as it is. -/
theorem Operation.run_of_onlyAsks {c : Call} {op : Operation} (hc : c.verb.onlyAsks = true)
    (hop : c.operation = .ok op) (ranking : Ranking) (t : Table) : (op.run ranking t).2 = t := by
  simp only [Call.operation] at hop
  split at hop <;> simp only [bind_ok, pure_ok] at hop <;> grind [Operation.run, Verb.onlyAsks]

/-- What leaves a table as it is, followed by what does, leaves it as it is. -/
theorem Answer.andThen_unchanged {α β : Type} {t : Table} {r : Answer α}
    {next : α → Table → Answer β} (hr : r.2 = t) (hnext : ∀ a, (next a t).2 = t) :
    (Answer.andThen r next).2 = t := by
  obtain ⟨e | a, t'⟩ := r
  · exact hr
  · cases hr
    exact hnext a

namespace Judge

variable {j : Judge} {t : Table}

/-- A verb that only asks leaves the table as it is. -/
theorem effect_table {verb : Verb} (hverb : verb.onlyAsks = true) (parameters : List Token)
    (supplied : List Value) : (j.effect verb parameters supplied t).2 = t := by
  unfold effect
  split
  next outcome t' hcall =>
    obtain ⟨values, -, hdispatch⟩ := bind_ok.1 hcall
    obtain ⟨op, hprepare, hrun⟩ := Operation.dispatch_ok.1 hdispatch
    have hop := (Operation.prepare_ok.1 hprepare).2.2
    exact (congrArg Prod.snd hrun).symm.trans (Operation.run_of_onlyAsks hverb hop j.ranking t)
  next => rfl

/-- The rest of a chain leaves the table as it is when every statement does. -/
theorem chainFrom_table {ask : Statement → Table → Answer Bool} {statements : List Statement}
    (hask : ∀ s ∈ statements, (ask s t).2 = t) {sofar : Bool} {pending : Connective} :
    (chainFrom ask sofar pending statements t).2 = t := by
  induction statements generalizing sofar pending with
  | nil => rfl
  | cons s rest ih =>
    unfold chainFrom
    split
    · rfl
    · exact Answer.andThen_unchanged (hask s List.mem_cons_self) fun _ =>
        ih fun s hs => hask s (List.mem_cons_of_mem _ hs)

/-- A chain leaves the table as it is when every statement does. -/
theorem chain_table {ask : Statement → Table → Answer Bool} {statements : List Statement}
    (hask : ∀ s ∈ statements, (ask s t).2 = t) : (chain ask statements t).2 = t := by
  cases statements with
  | nil => rfl
  | cons s rest =>
    exact Answer.andThen_unchanged (hask s List.mem_cons_self) fun _ =>
      chainFrom_table fun s hs => hask s (List.mem_cons_of_mem _ hs)

/-- A statement leaves the table as it is when its verb only asks and so do the conditions it
asks. -/
theorem statement_table {ask : ConditionId → List Value → Table → Answer Bool}
    {condition : String} {supplied : List Value} {s : Statement}
    (hcall : s.question.onlyAsks = true)
    (hask : ∀ id, s.question.reference? = some id → ∀ values, (ask id values t).2 = t) :
    (j.statement ask condition supplied s t).2 = t := by
  unfold statement
  refine Answer.andThen_unchanged ?_ fun _ => rfl
  split
  next verb parameters heq =>
    rw [heq] at hcall
    exact effect_table hcall parameters supplied
  next id heq => exact hask id (by rw [heq]; rfl) supplied
  next id tokens heq =>
    exact Answer.andThen_unchanged (by rfl) fun values => hask id (by rw [heq]; rfl) values

/-- Evaluating a condition that only asks leaves the table as it is. -/
theorem condition_table {id : ConditionId} (h : j.graph.OnlyAsks id) {guard : Guard}
    {supplied : List Value} : (j.condition guard id supplied t).1.2 = t := by
  induction hroom : guard.room j.graph using Nat.strong_induction_on
    generalizing guard id supplied with
  | _ n ih =>
    unfold condition
    split
    next => rfl
    next inner hinner =>
      split
      next => rfl
      next c hc =>
        refine Answer.andThen_unchanged (chain_table fun s hs => ?_) fun _ => rfl
        refine statement_table (h id .refl c hc s hs) fun next hnext values => ?_
        exact ih _ (hroom ▸ Guard.room_lt hinner hc) (h.next (.of_statement hc hs hnext)) rfl

/-- So does a reference to it. -/
theorem holds_table {r : ConditionRef} (h : j.graph.OnlyAsks r.id) (supplied : List Value)
    (t : Table) : (j.holds r supplied t).2 = t :=
  Answer.andThen_unchanged (condition_table h) fun _ => rfl

end Judge

end HouseRules
