import HouseRules.Proofs.Judge

/-!
# What stopping early does to a verdict

A condition joins its statements from left to right, and one may expect the verdict of all of them
(`Condition.fullVerdict`). Evaluation stops at the first connective that decides, and passes over
every statement after that, also where a later connective would have brought one of them into play.
So what comes out is the verdict of the statements up to there (`Condition.stoppedVerdict`).

Whether the two can differ depends on the connectives alone. They agree whatever the statements
answer if nothing but the same connective ever follows an `and` or an `or` (`Connective.Steady`),
and otherwise there are answers on which they do not (`Connective.stopped_eq_full_iff`).

Reference: `Evaluator.chain`, `Connective.short_circuits` (specification 4.5, 8, E4).
-/

namespace HouseRules

/-! ## Connectives in a row -/

namespace Connective

/-- The joint verdict of all answers. -/
def full (sofar : Bool) (links : List (Connective × Bool)) : Bool :=
  links.foldl (fun sofar (c, next) => c.combine sofar next) sofar

/-- The joint verdict of the answers up to the first connective that decides. -/
def stopped (sofar : Bool) : List (Connective × Bool) → Bool
  | [] => sofar
  | (c, next) :: links => if c.decides sofar then sofar else stopped (c.combine sofar next) links

/-- An `and` is followed by `and` only, and an `or` by `or`. -/
def Steady (cs : List Connective) : Prop := cs.IsChain fun a b => a = .xor ∨ a = b

/-- Whether a row of connectives is steady can be checked from one connective to the next. -/
instance (cs : List Connective) : Decidable (Steady cs) :=
  inferInstanceAs (Decidable (cs.IsChain fun a b => a = .xor ∨ a = b))

/-- The verdict that a connective neither decides nor changes. -/
def unit : Connective → Bool
  | .and => true
  | .or | .xor => false

@[simp] theorem decides_unit (c : Connective) : c.decides c.unit = false := by
  cases c <;> rfl

@[simp] theorem unit_combine (c : Connective) (next : Bool) : c.combine c.unit next = next := by
  cases c <;> cases next <;> rfl

@[simp] theorem combine_unit (c : Connective) (sofar : Bool) : c.combine sofar c.unit = sofar := by
  cases c <;> cases sofar <;> rfl

/-- An `and` is decided by false, and an `or` by true. -/
theorem decides_not_unit {c : Connective} (h : c ≠ .xor) : c.decides (!c.unit) = true := by
  cases c
  · rfl
  · rfl
  · exact absurd rfl h

/-- Only an exclusive connective never decides. -/
theorem ne_xor_of_decides {c : Connective} {sofar : Bool} (h : c.decides sofar = true) :
    c ≠ .xor := by
  rintro rfl
  cases h

/-- Another connective than the one that decides can still turn the verdict. -/
theorem exists_combine_eq_not {c d : Connective} {sofar : Bool} (h : c.decides sofar = true)
    (hne : c ≠ d) : ∃ next, d.combine sofar next = !sofar := by
  cases c <;> cases d <;> cases sofar <;> simp_all [decides, combine]

/-- All answers, beginning with the first two joined. -/
theorem full_cons (sofar : Bool) (c : Connective) (next : Bool)
    (links : List (Connective × Bool)) :
    full sofar ((c, next) :: links) = full (c.combine sofar next) links := rfl

/-- Where every connective decides, nothing changes any more. -/
theorem full_of_decides {sofar : Bool} {links : List (Connective × Bool)}
    (h : ∀ link ∈ links, link.1.decides sofar = true) : full sofar links = sofar := by
  induction links with
  | nil => rfl
  | cons link links ih =>
    obtain ⟨c, next⟩ := link
    rw [full_cons, combine_of_decides (h _ List.mem_cons_self)]
    exact ih fun link hlink => h link (List.mem_cons_of_mem _ hlink)

/-- Nothing changes either where every answer is the one that its connective does not mind. -/
theorem full_unit (sofar : Bool) (cs : List Connective) :
    full sofar (cs.zip (cs.map unit)) = sofar := by
  induction cs with
  | nil => rfl
  | cons c cs ih =>
    rw [List.map_cons, List.zip_cons_cons, full_cons, combine_unit]
    exact ih

/-- In a steady row the same connective follows one that can decide. -/
theorem Steady.eq_of_mem {c d : Connective} {cs : List Connective} (h : Steady (c :: cs))
    (hc : c ≠ .xor) (hd : d ∈ cs) : d = c := by
  induction cs with
  | nil => cases hd
  | cons e cs ih =>
    obtain ⟨hce, hrest⟩ := List.isChain_cons_cons.1 h
    obtain rfl := hce.resolve_left hc
    rcases List.mem_cons.1 hd with rfl | hd
    · rfl
    · exact ih hrest hd

/-- In a steady row no statement that is passed over would have changed the verdict. -/
theorem Steady.stopped_eq_full {cs : List Connective} (h : Steady cs) (sofar : Bool)
    (answers : List Bool) : stopped sofar (cs.zip answers) = full sofar (cs.zip answers) := by
  induction cs generalizing sofar answers with
  | nil => rfl
  | cons c cs ih =>
    cases answers with
    | nil => rfl
    | cons next answers =>
      rw [List.zip_cons_cons, stopped, full_cons]
      split
      next hdecides =>
        rw [combine_of_decides hdecides, full_of_decides]
        rintro ⟨d, answer⟩ hlink
        obtain rfl := h.eq_of_mem (ne_xor_of_decides hdecides) (List.of_mem_zip hlink).1
        exact hdecides
      next => exact ih (List.IsChain.of_cons h) (c.combine sofar next) answers

/-- Stopping early leaves the verdict as it is, whatever the answers, exactly in a steady row. -/
theorem stopped_eq_full_iff {cs : List Connective} :
    (∀ sofar answers, answers.length = cs.length →
      stopped sofar (cs.zip answers) = full sofar (cs.zip answers)) ↔ Steady cs := by
  constructor
  · intro h
    induction cs with
    | nil => exact .nil
    | cons c cs ih =>
      cases cs with
      | nil => exact .singleton c
      | cons d cs =>
        refine List.isChain_cons_cons.2 ⟨?_, ih fun sofar answers hlength => ?_⟩
        · by_contra hne
          obtain ⟨hxor, hne⟩ := not_or.1 hne
          -- At `!c.unit` the first connective decides, and the second one can still turn that.
          have hdecides := decides_not_unit hxor
          obtain ⟨turn, hturn⟩ := exists_combine_eq_not hdecides hne
          have := h (!c.unit) (true :: turn :: cs.map unit) (by simp)
          rw [List.zip_cons_cons, List.zip_cons_cons, stopped, if_pos hdecides, full_cons,
            combine_of_decides hdecides, full_cons, hturn, full_unit] at this
          simp at this
        · -- Begun with what the first connective lets through, the row goes on with `sofar`.
          have := h c.unit (sofar :: answers) (by simp [hlength])
          rwa [List.zip_cons_cons, stopped, decides_unit, if_neg Bool.false_ne_true, full_cons,
            unit_combine] at this
  · exact fun h sofar answers _ => h.stopped_eq_full sofar answers

end Connective

/-! ## The verdicts of a condition -/

/-- How a statement is joined to the next one. -/
def Statement.joint (s : Statement) : Connective := s.connective.getD .and

namespace Condition

/-- The connectives between the statements. -/
def connectives (c : Condition) : List Connective := c.statements.dropLast.map Statement.joint

/-- The verdict that a way of joining makes of the answers to the statements. -/
def verdict (c : Condition) (join : Bool → List (Connective × Bool) → Bool) : List Bool → Bool
  | [] => true != c.inverted
  | first :: rest => join first (c.connectives.zip rest) != c.inverted

/-- The verdict of all statements. -/
def fullVerdict (c : Condition) : List Bool → Bool := c.verdict Connective.full

/-- The verdict of the statements up to the first connective that decides. -/
def stoppedVerdict (c : Condition) : List Bool → Bool := c.verdict Connective.stopped

/-- Between the statements there is one connective less than there are statements. -/
theorem length_connectives (c : Condition) : c.connectives.length = c.statements.length - 1 := by
  rw [connectives, List.length_map, List.length_dropLast]

/-- The two verdicts agree on all answers exactly if the connectives are a steady row. -/
theorem stoppedVerdict_eq_iff (c : Condition) :
    (∀ answers, answers.length = c.statements.length →
      c.stoppedVerdict answers = c.fullVerdict answers) ↔ Connective.Steady c.connectives := by
  rw [← Connective.stopped_eq_full_iff]
  constructor
  · intro h first rest hlength
    rw [length_connectives] at hlength
    cases hstatements : c.statements with
    | nil => simp [connectives, hstatements, Connective.stopped, Connective.full]
    | cons s statements =>
      have := h (first :: rest) (by rw [hstatements] at hlength ⊢; simpa using hlength)
      exact Bool.bne_left_inj.1 this
  · intro h answers hlength
    cases answers with
    | nil => rfl
    | cons first rest =>
      have := h first rest (by rw [length_connectives, ← hlength]; simp)
      exact congrArg (· != c.inverted) this

end Condition

/-! ## Evaluation -/

namespace Judge

variable {j : Judge}

/-- A statement of a condition that is under way, asked on its own, has an answer and leaves the
table as it is. -/
def AnswersAlone (j : Judge) (inner : Guard) (c : Condition) (supplied : List Value) (t : Table)
    (s : Statement) (answer : Bool) : Prop :=
  j.statement (fun id values t => (j.condition inner id values t).1) c.name supplied s t =
    (.ok answer, t)

/-- What follows a statement is joined to it up to the first connective that decides. -/
theorem chainFrom_eq_stopped {ask : Statement → Table → Answer Bool} {t : Table}
    {statements : List Statement} {answers : List Bool}
    (h : List.Forall₂ (fun s answer => ask s t = (.ok answer, t)) statements answers)
    (sofar : Bool) (s : Statement) :
    chainFrom ask sofar s.joint statements t =
      (.ok (Connective.stopped sofar (((s :: statements).dropLast.map Statement.joint).zip
        answers)), t) := by
  induction h generalizing sofar s with
  | nil => rfl
  | @cons next answer statements answers hnext _ ih =>
    rw [List.dropLast_cons_cons, List.map_cons, List.zip_cons_cons, chainFrom, Connective.stopped]
    split
    · rfl
    · rw [hnext, Answer.andThen_ok]
      exact ih (s.joint.combine sofar answer) next

/-- Where every statement of a condition, asked on its own, answers and leaves the table as it is,
the condition gives the verdict of the statements up to the first connective that decides. That is
the verdict of all statements if the connectives are a steady row; and for every other row there are
answers to the statements that make the two verdicts differ. -/
theorem condition_of_answers {guard inner : Guard} {id : ConditionId} {c : Condition}
    (hc : j.graph.conditions[id.index]? = some c) (hinner : guard.enter j.graph id = .ok inner)
    {supplied : List Value} {t : Table} {answers : List Bool}
    (hanswers : List.Forall₂ (j.AnswersAlone inner c supplied t) c.statements answers) :
    (j.condition guard id supplied t).1 = (.ok (c.stoppedVerdict answers), t) ∧
      (Connective.Steady c.connectives →
        (j.condition guard id supplied t).1 = (.ok (c.fullVerdict answers), t)) ∧
      (¬ Connective.Steady c.connectives →
        ∃ others, others.length = c.statements.length ∧
          c.stoppedVerdict others ≠ c.fullVerdict others) := by
  have hchain : (j.condition guard id supplied t).1 = (.ok (c.stoppedVerdict answers), t) := by
    rw [condition]
    split
    next e he => cases he.symm.trans hinner
    next inner' hinner' =>
      obtain rfl := Except.ok.inj (hinner.symm.trans hinner')
      split
      next hnone => cases hnone.symm.trans hc
      next c' hc' =>
        obtain rfl := Option.some.inj (hc.symm.trans hc')
        obtain ⟨name, statements, inverted⟩ := c
        cases hanswers with
        | nil => rfl
        | @cons s first statements rest hfirst hrest =>
          dsimp only
          rw [chain, show j.statement _ name supplied s t = _ from hfirst, Answer.andThen_ok]
          exact congrArg (Answer.andThen · _) (chainFrom_eq_stopped hrest first s)
  have hiff := c.stoppedVerdict_eq_iff
  refine ⟨hchain, fun hsteady => ?_, fun hsteady => ?_⟩
  · rw [hchain, hiff.2 hsteady answers hanswers.length_eq.symm]
  · by_contra hnone
    exact hsteady (hiff.1 fun others hlength =>
      by_contra fun hne => hnone ⟨others, hlength, hne⟩)

/-- A judge of one condition, "nothing to draw and nothing to draw, or nothing discarded". -/
def mixing : Judge where
  graph :=
    let empty (pile : Nat) (connective : Option Connective) : Statement :=
      ⟨false, .call .checkIfEmpty [.pile ⟨⟨pile⟩, .current⟩], connective⟩
    { aliases := [], actions := [], controlled := [], phases := []
      conditions := [⟨"mixed", [empty 0 (some .and), empty 0 (some .or), empty 1 none], false⟩] }
  ranking := .flat
  maxRepeat := 1

/-- A card may be drawn, and nothing is discarded: the last statement alone would make the condition
hold, and it is not asked. -/
theorem mixing_of_answers :
    let t := Table.fresh ⟨[⟨"draw", ⟨0⟩, none, {}, [⟨0, "a", none⟩]⟩,
      ⟨"discard", ⟨1⟩, none, {}, []⟩], []⟩ [.seated "ann" []] .clockwise (.ofSeed 0)
    ∃ c, mixing.graph.conditions[0]? = some c ∧
      List.Forall₂ (mixing.AnswersAlone ⟨[⟨0⟩]⟩ c [] t) c.statements [false, false, true] ∧
      (mixing.condition .empty ⟨0⟩ [] t).1 = (.ok false, t) ∧
      c.fullVerdict [false, false, true] = true ∧ ¬ Connective.Steady c.connectives := by
  intro t
  have hanswers : List.Forall₂ (mixing.AnswersAlone ⟨[⟨0⟩]⟩ mixing.graph.conditions[0] [] t)
      mixing.graph.conditions[0].statements [false, false, true] :=
    .cons rfl (.cons rfl (.cons rfl .nil))
  have hverdict : (mixing.condition .empty ⟨0⟩ [] t).1 = (.ok false, t) :=
    (condition_of_answers rfl rfl hanswers).1
  exact ⟨_, rfl, hanswers, hverdict, rfl, by decide⟩

end Judge

end HouseRules
