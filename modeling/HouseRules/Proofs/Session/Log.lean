import HouseRules.Proofs.Judge.Nesting
import HouseRules.Proofs.Strict.Session

/-!
# Sessions that keep a log

Two things go on in a session that its answers do not show: the guard is passed along from one
condition to the next, and things are begun, one after the other, each at the table that it finds.
Here a session keeps both (`Log`). Each of its calls is read once more, with the log passed along:
the guard is cleared only where a call clears it, and whatever is run is noted before it runs, with
what it is run for (`Occasion`).

Nothing else is different: under the empty guard, an inquiry is answered as without the log, and the
guard is empty afterwards, after an error too (`Session.replyLogged_eq`). What a start or a move
adds to the log accounts for all that it does to the table, for running what was begun, in order,
leads from the first table to the last (`Judge.Replays`). And it was begun in time: nothing but a
response begins once the game is over (`Beginning.Timely`).
-/

namespace HouseRules

/-! ## Logs -/

/-- What something is run for. -/
inductive Occasion where
  /-- It was asked for. -/
  | action
  /-- It answers an action. -/
  | response
  /-- A phase is entered. -/
  | opening
  /-- An action took effect and play is where it was. -/
  | closing
  deriving Repr, DecidableEq

/-- Something was begun at a table. -/
structure Beginning where
  occasion : Occasion
  performable : Performable
  supplied : List Value
  table : Table

/-- Unless it is a response, the game was not over. -/
def Beginning.Timely (b : Beginning) : Prop := b.occasion ≠ .response → b.table.isOver = false

/-- The conditions that are being evaluated, and all that was begun. -/
structure Log where
  guard : Guard
  begun : List Beginning

namespace Log

/-- Nothing is being evaluated, and nothing was begun. -/
def fresh : Log := ⟨.empty, []⟩

/-- No condition is being evaluated any more. -/
def clear (log : Log) : Log := { log with guard := .empty }

@[simp] theorem clear_mk (guard : Guard) (begun : List Beginning) :
    clear ⟨guard, begun⟩ = ⟨.empty, begun⟩ := rfl

end Log

/-- An answer and the log after it; `none` if a depth did not do. -/
abbrev Logged (α : Type) := Option (Answer α × Log)

namespace Logged

variable {α β : Type}

/-- Goes on with a result and the log after it; an error ends everything. -/
def andThen (r : Logged α) (next : α → Table → Log → Logged β) : Logged β :=
  match r with
  | some ((.ok a, t), log) => next a t log
  | some ((.error e, t), log) => some ((.error e, t), log)
  | none => none

/-- Where the log stays as it was, going on is going on with the answer. -/
theorem andThen_eq {r : Answer α} {log : Log} {next : α → Table → Answer β}
    {nextLogged : α → Table → Log → Logged β}
    (h : ∀ a t, nextLogged a t log = some (next a t, log)) :
    andThen (some (r, log)) nextLogged = some (Answer.andThen r next, log) := by
  obtain ⟨e | a, t⟩ := r
  · rfl
  · exact h a t

end Logged

/-! ## Runs -/

namespace Judge

open Guarded (Ends)

/-- As `run`, noted in the log. -/
def runLogged (j : Judge) (occasion : Occasion) (p : Performable) (supplied : List Value)
    (t : Table) (log : Log) : Logged Bool :=
  let depth := j.graph.controlled.length + 1
  (j.executeWithin supplied depth p t log.guard).map fun (answer, guard) =>
    (answer, ⟨guard, log.begun ++ [⟨occasion, p, supplied, t⟩]⟩)

/-- As `runAll`; the guard is cleared after each run that succeeds. -/
def runAllLogged (j : Judge) (occasion : Occasion) : List Performable → Table → Log → Logged Unit
  | [], t, log => some ((.ok (), t), log)
  | p :: ps, t, log =>
    if t.isOver then some ((.ok (), t), log)
    else Logged.andThen (j.runLogged occasion p [] t log) fun _ t log =>
      runAllLogged j occasion ps t log.clear

/-- As `respond`; the guard is cleared after each run that succeeds. -/
def respondLogged (j : Judge) (supplied : List Value) :
    List Performable → Table → Log → Logged Unit
  | [], t, log => some ((.ok (), t), log)
  | p :: ps, t, log =>
    Logged.andThen (j.runLogged .response p supplied t log) fun _ t log =>
      respondLogged j supplied ps t log.clear

/-- As `enterPhase`. -/
def enterPhaseLogged (j : Judge) (limit : Nat) (again : Nat) (t : Table) (log : Log) :
    Logged Unit :=
  let position := t.position
  match t.isOver, position.phase with
  | true, _ => some ((.ok (), t), log)
  | false, none => some ((.ok (), t), log)
  | false, some id =>
    Logged.andThen (some (.ofExcept t (j.graph.phase id), log)) fun phase t log =>
      Logged.andThen (j.runAllLogged .opening phase.start t log) fun _ t log =>
        if t.position = position then some ((.ok (), t), log)
        else
          match again with
          | 0 => some ((.error (.phaseLoop phase.name limit), t), log)
          | again + 1 => enterPhaseLogged j limit again t log

/-- As `closeAction`. -/
def closeActionLogged (j : Judge) (before : Position) (t : Table) (log : Log) : Logged Unit :=
  match before.phase with
  | some id =>
    if t.position = before then
      Logged.andThen (some (.ofExcept t (j.graph.phase id), log)) fun phase t log =>
        j.runAllLogged .closing phase.finish t log
    else some ((.ok (), t), log)
  | none => some ((.ok (), t), log)

/-- As `settle`. -/
def settleLogged (j : Judge) (limit : Nat) (before : Position) (t : Table) (log : Log) :
    Logged Unit :=
  if t.isOver then some ((.ok (), t), log)
  else
    Logged.andThen (j.closeActionLogged before t log) fun _ t log =>
      if t.position = before then some ((.ok (), t), log)
      else j.enterPhaseLogged limit (limit - 1) t log

/-- As `permitted`; the guard is cleared after each precondition, in an error too. -/
def permittedLogged (j : Judge) (phase : PhaseId) (index : Nat) :
    List AllowedAction → Table → Log → Logged (List Offer)
  | [], t, log => some ((.ok [], t), log)
  | entry :: entries, t, log =>
    let permission :=
      match entry.precondition with
      | some r => (j.holdsUnder r [] t log.guard).map fun (answer, guard) =>
        (answer, { log with guard })
      | none => some ((.ok true, t), log)
    Logged.andThen permission fun permission t log =>
      Logged.andThen (permittedLogged j phase (index + 1) entries t log) fun offers t log =>
        some ((.ok (if permission then ⟨phase, index, entry.action⟩ :: offers else offers), t), log)

/-! ### What the log accounts for -/

/-- Running what was begun, in order, leads from one table to another, and each was begun at the
table that the one before it had left. -/
inductive Replays (j : Judge) : Table → List Beginning → Table → Prop
  | nil (t : Table) : Replays j t [] t
  | cons {b : Beginning} {begun : List Beginning} {t' : Table}
      (tail : Replays j (j.run b.performable b.supplied b.table).2 begun t') :
      Replays j b.table (b :: begun) t'

variable {j : Judge} {t t' t'' : Table}

/-- What was begun and then what was begun after it lead on, one after the other. -/
theorem Replays.append {begun later : List Beginning} (h : j.Replays t begun t')
    (h' : j.Replays t' later t'') : j.Replays t (begun ++ later) t'' := by
  induction h with
  | nil => exact h'
  | cons _ ih => exact .cons (ih h')

/-- What is done from a table on, begun under the empty guard, comes to an answer and leaves the
guard empty. What it adds to the log accounts for the answer's table, and all of it was begun in
time. -/
def Follows (j : Judge) {α : Type} (t : Table) (run : Log → Logged α) (answer : Answer α) : Prop :=
  ∀ before, ∃ begun, run ⟨.empty, before⟩ = some (answer, ⟨.empty, before ++ begun⟩) ∧
    j.Replays t begun answer.2 ∧ ∀ b ∈ begun, b.Timely

namespace Follows

variable {α β : Type}

/-- What runs nothing adds nothing. -/
theorem done (x : Except RuntimeError α) : j.Follows t (fun log => some ((x, t), log)) (x, t) :=
  fun before => ⟨[], by rw [List.append_nil], .nil t, nofun⟩

/-- The second half starts from the log that the first has left. -/
theorem andThen {run : Log → Logged α} {answer : Answer α} {next : α → Table → Log → Logged β}
    {nextAnswer : α → Table → Answer β} (h : j.Follows t run answer)
    (hnext : ∀ a t', answer = (.ok a, t') → j.Follows t' (next a t') (nextAnswer a t')) :
    j.Follows t (fun log => Logged.andThen (run log) next) (Answer.andThen answer nextAnswer) := by
  intro before
  obtain ⟨begun, hrun, hreplays, htimely⟩ := h before
  obtain ⟨e | a, t'⟩ := answer
  · exact ⟨begun, by dsimp only; rw [hrun]; rfl, hreplays, htimely⟩
  · obtain ⟨later, hlater, hreplaysLater, htimelyLater⟩ := hnext a t' rfl (before ++ begun)
    refine ⟨begun ++ later, ?_, hreplays.append hreplaysLater, fun b hb => ?_⟩
    · dsimp only
      rw [hrun, ← List.append_assoc]
      exact hlater
    · exact (List.mem_append.1 hb).elim (htimely b) (htimelyLater b)

/-- Clearing an empty guard does nothing. -/
theorem clear {run : Log → Logged α} {answer : Answer α} (h : j.Follows t run answer) :
    j.Follows t (fun log => run log.clear) answer := h

end Follows

/-! ### Runs on a graph without cycles -/

section

variable (hg : ¬ j.graph.Cyclic)

include hg

/-- One run is one beginning. -/
theorem runLogged_follows {occasion : Occasion} (p : Performable) (supplied : List Value)
    (h : occasion ≠ .response → t.isOver = false) :
    j.Follows t (j.runLogged occasion p supplied t) (j.run p supplied t) := by
  have hroom := Trail.room_le j.graph.controlled.length []
  have hends : Ends (j.executeWithin supplied (j.graph.controlled.length + 1) p)
      (j.run p supplied) :=
    executeWithin_ends hg (fun id _ => .nil id) (Nat.lt_succ_of_le hroom) hroom
  obtain ⟨r, hexecute, hempty⟩ := hends t .empty
  obtain rfl := hempty rfl
  let b : Beginning := ⟨occasion, p, supplied, t⟩
  refine fun before => ⟨[b], ?_, .cons (b := b) (.nil _), ?_⟩
  · rw [runLogged, hexecute]
    rfl
  · intro b hb
    obtain rfl := List.mem_singleton.1 hb
    exact h

/-- Running things in a row is followed by its logged form. -/
theorem runAllLogged_follows {occasion : Occasion} (runs : List Performable) :
    j.Follows t (fun log => j.runAllLogged occasion runs t log) (j.runAll runs t) := by
  induction runs generalizing t with
  | nil => exact .done _
  | cons p runs ih =>
    unfold runAllLogged runAll
    cases hover : t.isOver with
    | true => exact .done _
    | false => exact (runLogged_follows hg p [] fun _ => hover).andThen fun _ _ _ => ih.clear

/-- Running responses is followed by its logged form. -/
theorem respondLogged_follows (supplied : List Value) (runs : List Performable) :
    j.Follows t (fun log => j.respondLogged supplied runs t log) (j.respond supplied runs t) := by
  induction runs generalizing t with
  | nil => exact .done _
  | cons p runs ih =>
    have hresponse : (Occasion.response ≠ .response → t.isOver = false) := fun h => absurd rfl h
    exact (runLogged_follows hg p supplied hresponse).andThen fun _ _ _ => ih.clear

/-- Entering phases is followed by its logged form. -/
theorem enterPhaseLogged_follows (limit again : Nat) :
    j.Follows t (fun log => j.enterPhaseLogged limit again t log) (j.enterPhase limit again t) := by
  induction again using Nat.strong_induction_on generalizing t with
  | _ again ih =>
    unfold enterPhaseLogged enterPhase
    dsimp only
    cases t.isOver with
    | true => exact .done _
    | false =>
      cases t.position.phase with
      | none => exact .done _
      | some id =>
        refine Follows.andThen (.done _) fun phase t' _ => ?_
        refine (runAllLogged_follows hg phase.start).andThen fun _ t' _ => ?_
        split
        · exact .done _
        · split
          · exact .done _
          · exact ih _ (Nat.lt_succ_self _)

/-- Running closing actions is followed by its logged form. -/
theorem closeActionLogged_follows (before : Position) :
    j.Follows t (j.closeActionLogged before t) (j.closeAction before t) := by
  unfold closeActionLogged closeAction
  cases before.phase with
  | none => exact .done _
  | some id =>
    dsimp only
    split
    · refine Follows.andThen (.done (j.graph.phase id)) fun phase _ _ => ?_
      exact runAllLogged_follows hg phase.finish
    · exact .done _

/-- Settling is followed by its logged form. -/
theorem settleLogged_follows (limit : Nat) (before : Position) :
    j.Follows t (j.settleLogged limit before t) (j.settle limit before t) := by
  unfold settleLogged settle
  split
  · exact .done _
  · refine (closeActionLogged_follows hg before).andThen fun _ t' _ => ?_
    split
    · exact .done _
    · exact enterPhaseLogged_follows hg limit (limit - 1)

end

/-- Asking for preconditions under the empty guard leaves the log as it is. -/
theorem permittedLogged_eq (phase : PhaseId) (index : Nat) (entries : List AllowedAction)
    (t : Table) (begun : List Beginning) :
    j.permittedLogged phase index entries t ⟨.empty, begun⟩ =
      some (j.permitted phase index entries t, ⟨.empty, begun⟩) := by
  induction entries generalizing index t with
  | nil => rfl
  | cons entry entries ih =>
    unfold permittedLogged permitted
    have hpermission :
        (match entry.precondition with
          | some r =>
            (j.holdsUnder r [] t .empty).map fun (answer, guard) => (answer, ⟨guard, begun⟩)
          | none => some ((.ok true, t), (⟨.empty, begun⟩ : Log))) =
        some (match entry.precondition with
          | some r => j.holds r [] t
          | none => (.ok true, t), ⟨.empty, begun⟩) := by
      cases entry.precondition with
      | none => rfl
      | some r =>
        obtain ⟨_, hholds, hempty⟩ := holdsUnder_ends (j := j) r [] t .empty
        obtain rfl := hempty rfl
        exact congrArg (Option.map _) hholds
    refine (congrArg (Logged.andThen · _) hpermission).trans ?_
    refine Logged.andThen_eq fun permission t => ?_
    rw [ih]
    exact Logged.andThen_eq fun offers t => rfl

end Judge

/-! ## Calls -/

namespace Session

/-- As `after`, with the guard cleared at the end of the call. -/
def afterLogged {α : Type} (s : Session) (r : Logged α) :
    Option ((Except RuntimeError α × Session) × Log) :=
  r.map fun (answer, log) => (s.after answer, log.clear)

/-- As `start`; the guard is cleared before it only if the session is reset. -/
def startLogged (s : Session) (log : Log) : Option ((Except RuntimeError Unit × Session) × Log) :=
  let log := if s.started then log.clear else log
  let s := (if s.started then s.reset else s).deal
  let limit := s.config.maxPhaseChain
  s.afterLogged (s.judge.enterPhaseLogged limit (limit - 1) s.table log)

/-- As `allowedFor`. -/
def allowedForLogged (s : Session) (seat : Seat) (log : Log) :
    Option ((Except RuntimeError (List Offer) × Session) × Log) :=
  if !s.started || s.table.isOver then some ((.ok [], s), log.clear)
  else
    match s.table.phaseOf? seat with
    | none => some ((.ok [], s), log.clear)
    | some id =>
      let phase := Answer.ofExcept s.table (s.game.graph.phase id)
      s.afterLogged (Logged.andThen (some (phase, log.clear)) fun phase t log =>
        s.judge.permittedLogged id 0 phase.allowed t log)

/-- As `carryOut`; the guard is cleared between the action and its responses. -/
def carryOutLogged (s : Session) (entry : AllowedAction) (values : List Value) (log : Log) :
    Logged Bool :=
  let before := s.table.position
  Logged.andThen (s.judge.runLogged .action entry.action values s.table log)
    fun effective t log =>
      Logged.andThen (s.judge.respondLogged values entry.responses t log.clear) fun _ t log =>
        if effective then
          Logged.andThen (s.judge.settleLogged s.config.maxPhaseChain before t log) fun _ t log =>
            some ((.ok true, t), log)
        else some ((.ok false, t), log)

/-- As `perform`. -/
def performLogged (s : Session) (offer : Offer) (values : List Value) (log : Log) :
    Option ((Except RuntimeError Bool × Session) × Log) :=
  match s.entryOf offer with
  | .error e => some ((.error e, s), log.clear)
  | .ok entry =>
    if s.table.isOver then some ((.ok false, s), log.clear)
    else s.afterLogged (s.carryOutLogged entry values log.clear)

/-- As `checkCondition`; a name that is not known leaves the guard alone. -/
def checkConditionLogged (s : Session) (name : String) (log : Log) :
    Option ((Except RuntimeError Bool × Session) × Log) :=
  match s.game.graph.conditionNamed? name with
  | none => some ((.error (.unknownComponent "condition" name), s), log)
  | some id =>
    let depth := s.judge.graph.conditions.length + 1
    s.afterLogged <| (s.judge.conditionWithin depth id [] s.table log.clear.guard).map
      fun (answer, guard) => (answer, { log with guard })

/-- The answer to an inquiry and the session after it, with the log passed along. -/
def replyLogged {α : Type} (s : Session) : Inquiry α → Log → Option ((α × Session) × Log)
  | .start, log => s.startLogged log
  | .reset, log => some (((), s.reset), log.clear)
  | .allowed, log => s.allowedForLogged s.table.current log
  | .allowedFor seat, log => s.allowedForLogged seat log
  | .perform offer values, log => s.performLogged offer values log
  | .checkCondition name, log => s.checkConditionLogged name log
  | inquiry, log => some (s.reply inquiry, log)

/-- The session and its log after some inquiries. -/
def askAllLogged (s : Session) : List (Σ α, Inquiry α) → Log → Option (Session × Log)
  | [], log => some (s, log)
  | inquiry :: asked, log =>
    (s.replyLogged inquiry.2 log).bind fun (answer, log) => askAllLogged answer.2 asked log

/-! ### Logged calls answer as the others -/

variable {s : Session}

/-- As `Judge.Follows`, for a call of a session that leads on from a table: begun under the empty
guard, it is answered as without a log and leaves the guard empty; running what it adds to the log,
in order, leads from that table to the table of the session after it, and nothing but a response was
begun where the game was over. -/
def Follows (s : Session) {α : Type} (t : Table) (call : Log → Option ((α × Session) × Log))
    (answer : α × Session) : Prop :=
  ∀ before, ∃ begun, call ⟨.empty, before⟩ = some (answer, ⟨.empty, before ++ begun⟩) ∧
    s.judge.Replays t begun answer.2.table ∧ ∀ b ∈ begun, b.Timely

/-- A call that ends with an answer is followed when the answer is. -/
theorem Follows.after {α : Type} {t : Table} {run : Log → Logged α} {answer : Answer α}
    (h : s.judge.Follows t run answer) :
    s.Follows t (fun log => s.afterLogged (run log)) (s.after answer) := by
  intro before
  obtain ⟨begun, hrun, hreplays, htimely⟩ := h before
  exact ⟨begun, congrArg s.afterLogged hrun, hreplays, htimely⟩

/-- A call that runs nothing adds nothing. -/
theorem Follows.done {α : Type} (s : Session) (a : α) :
    s.Follows s.table (fun log => some ((a, s), log.clear)) (a, s) :=
  fun before => ⟨[], by rw [List.append_nil]; rfl, .nil _, nofun⟩

/-- Starting is followed by its logged form, in a game where nothing runs itself. -/
theorem startLogged_follows (hg : ¬ s.game.graph.Cyclic) :
    s.Follows s.dealt.table s.startLogged s.start := by
  have hacyclic : ¬ s.dealt.judge.graph.Cyclic := by rwa [judge_dealt]
  have hdealt : s.dealt.Follows s.dealt.table _ s.start :=
    .after (Judge.enterPhaseLogged_follows hacyclic s.dealt.config.maxPhaseChain _)
  intro before
  rw [← judge_dealt]
  obtain ⟨begun, hrun, hrest⟩ := hdealt before
  refine ⟨begun, ?_, hrest⟩
  rw [← hrun, startLogged, Log.clear_mk, ite_self]
  rfl

/-- Carrying out an entry is followed by its logged form, in a game where nothing runs itself. -/
theorem carryOutLogged_follows (hg : ¬ s.game.graph.Cyclic) (hover : s.table.isOver = false)
    (entry : AllowedAction) (values : List Value) :
    s.judge.Follows s.table (s.carryOutLogged entry values) (s.carryOut entry values) := by
  refine (Judge.runLogged_follows hg entry.action values fun _ => hover).andThen
    fun effective t _ => ?_
  refine (Judge.respondLogged_follows hg values entry.responses).clear.andThen fun _ t _ => ?_
  cases effective with
  | false => exact .done _
  | true =>
    exact (Judge.settleLogged_follows hg s.config.maxPhaseChain s.table.position).andThen
      fun _ t _ => .done _

/-- Performing is followed by its logged form, in a game where nothing runs itself. -/
theorem performLogged_follows (hg : ¬ s.game.graph.Cyclic) (offer : Offer) (values : List Value) :
    s.Follows s.table (s.performLogged offer values) (s.perform offer values) := by
  unfold performLogged perform
  cases s.entryOf offer with
  | error e => exact .done s _
  | ok entry =>
    cases hover : s.table.isOver with
    | true => exact .done s _
    | false =>
      exact .after (carryOutLogged_follows hg hover entry values).clear

/-- Asking what is allowed clears the guard, and leaves the rest of the log as it is. -/
theorem allowedForLogged_eq (s : Session) (seat : Seat) (log : Log) :
    s.allowedForLogged seat log = some (s.allowedFor seat, log.clear) := by
  unfold allowedForLogged allowedFor
  split
  · rfl
  · cases s.table.phaseOf? seat with
    | none => rfl
    | some id =>
      refine congrArg s.afterLogged (Logged.andThen_eq fun phase t => ?_)
      exact s.judge.permittedLogged_eq id 0 phase.allowed t log.begun

/-- Evaluating a condition of the game clears the guard, and leaves the rest of the log as it is. -/
theorem checkConditionLogged_eq (s : Session) (name : String) (log : Log) :
    s.checkConditionLogged name log = some (s.checkCondition name,
      if (s.game.graph.conditionNamed? name).isSome then log.clear else log) := by
  unfold checkConditionLogged checkCondition
  cases s.game.graph.conditionNamed? name with
  | none => rfl
  | some id =>
    have hdepth := Nat.lt_succ_of_le (Guard.empty.room_le s.judge.graph)
    have hcondition := s.judge.conditionWithin_eq hdepth id [] s.table
    exact congrArg (fun r => s.afterLogged (Option.map _ r)) hcondition

/-- **A log changes nothing.** Under the empty guard every inquiry is answered as without a log, and
the guard is empty afterwards; what was begun was begun in time. -/
theorem replyLogged_eq (hg : ¬ s.game.graph.Cyclic) {α : Type} (inquiry : Inquiry α)
    (before : List Beginning) :
    ∃ begun, s.replyLogged inquiry ⟨.empty, before⟩ =
        some (s.reply inquiry, ⟨.empty, before ++ begun⟩) ∧ ∀ b ∈ begun, b.Timely := by
  have hquiet : ∀ {call : Option ((α × Session) × Log)},
      call = some (s.reply inquiry, ⟨.empty, before⟩) →
        ∃ begun, call = some (s.reply inquiry, ⟨.empty, before ++ begun⟩) ∧
          ∀ b ∈ begun, b.Timely :=
    fun h => ⟨[], by rw [h, List.append_nil], nofun⟩
  cases inquiry with
  | start =>
    obtain ⟨begun, hstart, -, htimely⟩ := startLogged_follows hg before
    exact ⟨begun, hstart, htimely⟩
  | perform offer values =>
    obtain ⟨begun, hperform, -, htimely⟩ := performLogged_follows hg offer values before
    exact ⟨begun, hperform, htimely⟩
  | allowed => exact hquiet (s.allowedForLogged_eq s.table.current _)
  | allowedFor seat => exact hquiet (s.allowedForLogged_eq seat _)
  | checkCondition name =>
    refine hquiet ((s.checkConditionLogged_eq name _).trans ?_)
    rw [Log.clear_mk, ite_self]
    rfl
  | _ => exact hquiet rfl

/-- No inquiry changes what a session was set up with. -/
theorem setup_reply (s : Session) {α : Type} (inquiry : Inquiry α) :
    (s.reply inquiry).2.game = s.game ∧ (s.reply inquiry).2.config = s.config := by
  have htable : ∀ {s' : Session}, s' = { s with table := s'.table } →
      s'.game = s.game ∧ s'.config = s.config := fun h => by
    rw [h]
    exact ⟨rfl, rfl⟩
  cases inquiry with
  | start =>
    have hdealt : s.dealt.game = s.game ∧ s.dealt.config = s.config := by
      unfold dealt
      split <;> exact ⟨rfl, rfl⟩
    exact hdealt
  | allowed => exact htable (s.snd_allowedFor s.table.current)
  | allowedFor seat => exact htable (s.snd_allowedFor seat)
  | perform offer values => exact htable (s.snd_perform offer values)
  | checkCondition name => exact htable (s.snd_checkCondition name)
  | _ => exact ⟨rfl, rfl⟩

/-- No inquiry changes the game of a session or its settings. -/
theorem setup_askAll (s : Session) (asked : List (Σ α, Inquiry α)) :
    (s.askAll asked).game = s.game ∧ (s.askAll asked).config = s.config := by
  induction asked generalizing s with
  | nil => exact ⟨rfl, rfl⟩
  | cons inquiry asked ih =>
    obtain ⟨hgame, hconfig⟩ := ih (s.reply inquiry.2).2
    obtain ⟨hgame', hconfig'⟩ := s.setup_reply inquiry.2
    exact ⟨hgame.trans hgame', hconfig.trans hconfig'⟩

/-- Between inquiries the guard is empty. -/
theorem askAllLogged_eq (hg : ¬ s.game.graph.Cyclic) (asked : List (Σ α, Inquiry α))
    (before : List Beginning) :
    ∃ begun, s.askAllLogged asked ⟨.empty, before⟩ =
        some (s.askAll asked, ⟨.empty, before ++ begun⟩) ∧ ∀ b ∈ begun, b.Timely := by
  induction asked generalizing s before with
  | nil => exact ⟨[], by rw [List.append_nil]; rfl, nofun⟩
  | cons inquiry asked ih =>
    obtain ⟨begun, hreply, htimely⟩ := replyLogged_eq hg inquiry.2 before
    have hnext : ¬ (s.reply inquiry.2).2.game.graph.Cyclic := by rwa [(s.setup_reply _).1]
    obtain ⟨later, hasked, htimelyLater⟩ := ih hnext (before ++ begun)
    refine ⟨begun ++ later, ?_, fun b hb => ?_⟩
    · rw [askAllLogged, hreply, ← List.append_assoc]
      exact hasked
    · exact (List.mem_append.1 hb).elim (htimely b) (htimelyLater b)

end Session

/-- The controlled actions of a compiled game do not run themselves. -/
theorem Game.not_cyclic_of_ofDocuments {rules deck board : Document} {brief : Option Document}
    {g : Game} (h : ofDocuments rules deck board brief = .ok g) : ¬ g.graph.Cyclic := by
  simp only [ofDocuments, bind_ok, pure_ok] at h
  obtain ⟨_, -, _, -, _, -, _, -, _, -, _, -, graph, hgraph, _, -, rfl⟩ := h
  exact Graph.not_cyclic_of_compile hgraph

/-- A session of a game that was compiled has no controlled action that runs itself. -/
theorem Session.not_cyclic_of_create {rules deck board : Document} {brief : Option Document}
    {g : Game} {names : List String} {config : Config} {s : Session}
    (hgame : Game.ofDocuments rules deck board brief = .ok g)
    (hs : create g names config = .ok s) : ¬ s.game.graph.Cyclic := by
  rw [(inPlay_create (Game.wellFormed_of_ofDocuments hgame) hs).game]
  exact Game.not_cyclic_of_ofDocuments hgame

end HouseRules
