import HouseRules.Proofs.Session.Log
import HouseRules.Proofs.Session.Settling

/-!
# Asking does not change the game

Preconditions are conditions, and evaluating a condition may call any verb, so asking what is
allowed is a run like any other. It changes nothing for a player whose questions are harmless
(`Session.AsksOnly`): no condition within reach of the preconditions in their phase calls a verb
that does more than answer. What other conditions do, those of other phases included, does not
matter.

Then each precondition is evaluated at the one table that there is, as if it were evaluated alone,
so what is on offer is what is permitted there, and asking again gives the same answer
(`Session.asking_changes_nothing`). The guard is empty afterwards even where it was not before, and
after an error too.

Reference: `Engine.allowed_actions_for`, `Engine.check_condition` (specification 4.5, E4).
-/

namespace HouseRules

namespace Judge

variable {j : Judge} {t : Table}

/-- Going through entries whose preconditions only ask leaves the table as it is. -/
theorem permitted_table {phase : PhaseId} {index : Nat} {entries : List AllowedAction}
    (hasks : ∀ entry ∈ entries, ∀ r, entry.precondition = some r → j.graph.OnlyAsks r.id) :
    (j.permitted phase index entries t).2 = t := by
  induction entries generalizing index with
  | nil => rfl
  | cons entry entries ih =>
    obtain ⟨hentry, hentries⟩ := List.forall_mem_cons.1 hasks
    unfold permitted
    refine Answer.andThen_unchanged ?_ fun _ => Answer.andThen_unchanged (ih hentries) fun _ => rfl
    cases hr : entry.precondition with
    | none => rfl
    | some r => exact holds_table (hentry r hr) [] t

end Judge

namespace Session

variable {s : Session} {seat : Seat}

/-- The conditions within reach of the preconditions in a player's phase call no verb that does more
than answer. -/
def AsksOnly (s : Session) (seat : Seat) : Prop :=
  ∀ id phase, s.table.phaseOf? seat = some id → s.game.graph.phase id = .ok phase →
    ∀ entry ∈ phase.allowed, ∀ r, entry.precondition = some r → s.game.graph.OnlyAsks r.id

/-- A session with the table of an answer that left it as it is is the session. -/
theorem after_snd {α : Type} {r : Answer α} (h : r.2 = s.table) : (s.after r).2 = s := by
  rw [after, h]

/-- Asking what is allowed leaves a session as it is where the preconditions only ask. -/
theorem allowedFor_snd (h : s.AsksOnly seat) : (s.allowedFor seat).2 = s := by
  unfold allowedFor
  split
  · rfl
  · split
    · rfl
    next id hid =>
      refine after_snd ?_
      cases hphase : s.game.graph.phase id with
      | error e => rfl
      | ok phase => exact Judge.permitted_table (h id phase hid hphase)

/-- Checking a condition that only asks leaves a session as it is. -/
theorem checkCondition_snd {name : String} {id : ConditionId}
    (hid : s.game.graph.conditionNamed? name = some id) (h : s.game.graph.OnlyAsks id) :
    (s.checkCondition name).2 = s := by
  rw [checkCondition, hid]
  exact after_snd (s.judge.condition_table h)

/-- What is on offer to a player stands in the allow block of their phase and is permitted. -/
theorem mem_allowedFor (h : s.AsksOnly seat) (hstarted : s.started = true)
    (hover : s.table.isOver = false) {offers : List Offer}
    (hoffers : (s.allowedFor seat).1 = .ok offers) {offer : Offer} :
    offer ∈ offers ↔ s.table.phaseOf? seat = some offer.phase ∧
      ∃ phase entry, s.game.graph.phase offer.phase = .ok phase ∧
        phase.allowed[offer.index]? = some entry ∧ entry.action = offer.performable ∧
        s.judge.Permits s.table entry := by
  unfold allowedFor at hoffers
  rw [hstarted, hover, if_neg (by decide)] at hoffers
  cases hid : s.table.phaseOf? seat with
  | none =>
    rw [hid] at hoffers
    cases hoffers
    simp
  | some id =>
    rw [hid] at hoffers
    obtain ⟨phase, t, hfound, hpermitted⟩ := Answer.andThen_eq_ok.1 (Prod.ext hoffers rfl)
    obtain ⟨hphase, rfl⟩ := Answer.ofExcept_eq_ok.1 hfound
    rw [Judge.mem_permitted (h id phase hid hphase) hpermitted]
    constructor
    · rintro ⟨i, entry, hentry, hpermits, rfl⟩
      exact ⟨rfl, phase, entry, hphase, by rwa [Nat.zero_add], rfl, hpermits⟩
    · rintro ⟨heq, phase', entry, hphase', hentry, haction, hpermits⟩
      obtain rfl := Option.some.inj heq
      obtain rfl := Except.ok.inj (hphase.symm.trans hphase')
      exact ⟨offer.index, entry, hentry, hpermits, by rw [Nat.zero_add, haction]⟩

/-- **Asking does not change the game.** Asking what is allowed to a player whose preconditions only
ask leaves the session as it is and the guard empty, whether there is an answer or an error, and so
asking once more comes to the same. If there is an answer in a game that has started and is not
over, it lists an entry exactly if it has no precondition or one that, evaluated alone, holds.
Evaluating a condition that only asks leaves the session as it is, too. -/
theorem asking_changes_nothing (s : Session) :
    (∀ seat, s.AsksOnly seat →
      (s.allowedFor seat).2 = s ∧
      (∀ log, s.allowedForLogged seat log = some (((s.allowedFor seat).1, s), log.clear)) ∧
      (s.allowedFor seat).2.allowedFor seat = s.allowedFor seat ∧
      ∀ offers, (s.allowedFor seat).1 = .ok offers → s.started = true →
        s.table.isOver = false → ∀ offer, offer ∈ offers ↔
          s.table.phaseOf? seat = some offer.phase ∧
            ∃ phase entry, s.game.graph.phase offer.phase = .ok phase ∧
              phase.allowed[offer.index]? = some entry ∧ entry.action = offer.performable ∧
              ∀ r, entry.precondition = some r → (s.judge.holds r [] s.table).1 = .ok true) ∧
    ∀ name id, s.game.graph.conditionNamed? name = some id → s.game.graph.OnlyAsks id →
      (s.checkCondition name).2 = s ∧
      (∀ log, s.checkConditionLogged name log =
        some (((s.checkCondition name).1, s), log.clear)) ∧
      (s.checkCondition name).2.checkCondition name = s.checkCondition name := by
  constructor
  · intro seat hasks
    have hstays := allowedFor_snd hasks
    refine ⟨hstays, fun log => ?_, by rw [hstays], fun offers hoffers hstarted hover offer =>
      mem_allowedFor hasks hstarted hover hoffers⟩
    have hanswer : s.allowedFor seat = ((s.allowedFor seat).1, s) := Prod.ext rfl hstays
    rw [allowedForLogged_eq]
    exact congrArg (fun answer => some (answer, log.clear)) hanswer
  · intro name id hid hasks
    have hstays := checkCondition_snd hid hasks
    refine ⟨hstays, fun log => ?_, by rw [hstays]⟩
    have hanswer : s.checkCondition name = ((s.checkCondition name).1, s) := Prod.ext rfl hstays
    rw [checkConditionLogged_eq, hid]
    exact congrArg (fun answer => some (answer, log.clear)) hanswer

/-! ## A phase with harmless questions -/

/-- A session of a game with two phases. In the one that the player is in, an action is on offer
while there are cards to draw, once there are none, and always; the other phase asks by emptying the
pile. -/
def asking : Session :=
  let empty : Condition :=
    ⟨"empty", [⟨false, .call .checkIfEmpty [.pile ⟨⟨0⟩, .current⟩], none⟩], false⟩
  let emptied : Condition :=
    ⟨"emptied", [⟨false, .call .removeAll [.pile ⟨⟨0⟩, .current⟩], none⟩], false⟩
  let entry (precondition : Option ConditionRef) : AllowedAction := ⟨.action ⟨0⟩, precondition, []⟩
  let turn : Phase :=
    ⟨"turn", [], [entry (some ⟨⟨0⟩, true⟩), entry (some ⟨⟨0⟩, false⟩), entry none], []⟩
  let rest : Phase := ⟨"rest", [], [entry (some ⟨⟨1⟩, false⟩)], []⟩
  { leaving with
    game := { leaving.game with
      graph := { leaving.game.graph with
        conditions := [empty, emptied]
        phases := [turn, rest] } } }

/-- The first condition only asks, unlike the other one. -/
theorem asking_onlyAsks : asking.game.graph.OnlyAsks ⟨0⟩ := by
  intro a ha c hc
  -- The condition refers to none, so it reaches itself alone.
  rcases ha.cases_head with rfl | ⟨b, ⟨c', hc', hb⟩, -⟩
  · obtain rfl := Option.some.inj hc
    decide
  · obtain rfl := Option.some.inj hc'
    cases hb

/-- The player's own questions are harmless. -/
theorem asking_asksOnly : asking.AsksOnly .first := by
  intro id phase hid hphase entry hentry r hr
  obtain rfl := Option.some.inj hid
  obtain rfl := Except.ok.inj hphase
  have hids : ∀ entry ∈ asking.game.graph.phases[0].allowed, ∀ r ∈ entry.precondition,
      r.id = ⟨0⟩ := by decide
  rw [hids entry hentry r hr]
  exact asking_onlyAsks

/-- There are cards to draw, so the condition does not hold, and its negation does. -/
theorem asking_holds (negated : Bool) :
    asking.judge.holds ⟨⟨0⟩, negated⟩ [] asking.table = (.ok (false != negated), asking.table) := by
  have hwithin : asking.judge.conditionWithin 3 ⟨0⟩ [] asking.table .empty =
      some ((.ok false, asking.table), .empty) := rfl
  have hcondition : (asking.judge.condition .empty ⟨0⟩ [] asking.table).1 =
      (.ok false, asking.table) :=
    congrArg Prod.fst <| Option.some.inj <|
      (Judge.conditionWithin_eq (by decide) ⟨0⟩ [] asking.table).symm.trans hwithin
  rw [Judge.holds, hcondition]
  rfl

/-- The player is offered the first and the third entry, and the session stays as it is. -/
theorem asking_allowedFor :
    asking.allowedFor .first =
      (.ok [⟨⟨0⟩, 0, .action ⟨0⟩⟩, ⟨⟨0⟩, 2, .action ⟨0⟩⟩], asking) := by
  have hallowed : asking.allowedFor .first = asking.after
      (asking.judge.permitted ⟨0⟩ 0 [⟨.action ⟨0⟩, some ⟨⟨0⟩, true⟩, []⟩,
        ⟨.action ⟨0⟩, some ⟨⟨0⟩, false⟩, []⟩, ⟨.action ⟨0⟩, none, []⟩] asking.table) := rfl
  rw [hallowed]
  simp only [Judge.permitted, asking_holds, Answer.andThen_ok]
  rfl

/-- The player is offered the entry whose precondition holds and the one that has none, with the
guard left by something else, and nothing changes. -/
theorem asking_asked :
    asking.AsksOnly .first ∧ ¬ asking.game.graph.OnlyAsks ⟨1⟩ ∧
      (∃ answer, asking.allowedForLogged .first ⟨⟨[⟨1⟩]⟩, []⟩ =
        some ((answer, asking), ⟨.empty, []⟩)) ∧
      (∃ entry, asking.game.graph.phases[0].allowed[2]? = some entry ∧
        ∀ r, entry.precondition = some r →
          (asking.judge.holds r [] asking.table).1 = .ok true) ∧
      ∃ answer, asking.checkConditionLogged "empty" .fresh = some ((answer, asking), .fresh) := by
  obtain ⟨hallowed, hcheck⟩ := asking.asking_changes_nothing
  obtain ⟨-, hlogged, -, hoffers⟩ := hallowed .first asking_asksOnly
  obtain ⟨-, hcondition, -⟩ := hcheck "empty" ⟨0⟩ rfl asking_onlyAsks
  refine ⟨asking_asksOnly, fun h => ?_, ⟨_, hlogged _⟩, ?_, ⟨_, hcondition _⟩⟩
  · exact absurd (h ⟨1⟩ .refl _ rfl) (by decide)
  · have hmem := hoffers _ (congrArg Prod.fst asking_allowedFor) rfl rfl ⟨⟨0⟩, 2, .action ⟨0⟩⟩
    obtain ⟨-, phase, entry, hphase, hentry, -, hholds⟩ := hmem.1 (by decide)
    obtain rfl := Except.ok.inj hphase
    exact ⟨entry, hentry, hholds⟩

end Session

end HouseRules
