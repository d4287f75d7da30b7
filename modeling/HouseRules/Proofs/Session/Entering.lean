import HouseRules.Proofs.Judge.Repetition
import HouseRules.Proofs.Session.Log
import HouseRules.Proofs.Session.Settling

/-!
# How often a phase may be entered

Entering a phase runs its opening actions, and if these move play on, the phase that play is in then
is entered. `Judge.enterOnce` is one such entry, and how far a row of them goes is said with
`Judge.Effective`, which knows nothing of a limit. The row ends at the first entry that does not
move play on, be it that the opening actions leave play where it is, that the game is over, or that
one of them fails.

A limit on the number of entries is met exactly: a row that ends before as many entries as the limit
have moved play on ends as it does without a limit, and any other is cut off right after the entry
that reaches the limit, with an error that names the phase entered last (`Judge.EntersUpTo`). So
under a limit of one no phase can be entered after the first one, and it makes no difference that
the game may be over by then. An error of this sort comes from nowhere else, for nothing that a
phase runs enters phases (`Judge.runAll_notPhaseLoop`).

Reference: `Engine.enter_phase`, `EngineConfig.max_phase_chain` (specification E1.5, E4).
-/

namespace HouseRules

open Answer (andThen)

/-- The error is that phases were entered too often. -/
def RuntimeError.IsPhaseLoop : RuntimeError → Prop
  | .phaseLoop _ _ => True
  | _ => False

/-- What a condition may end in is not that phases were entered too often. -/
theorem RuntimeError.IsOfCondition.not_isPhaseLoop {e : RuntimeError} (h : e.IsOfCondition) :
    ¬ e.IsPhaseLoop := by
  cases e <;> first | exact h.elim | exact id

/-- Two halves fail together when one of them does. -/
theorem Answer.andThen_eq_error {α β : Type} {r : Answer α} {next : α → Table → Answer β}
    {e : RuntimeError} :
    (andThen r next).1 = .error e ↔
      r.1 = .error e ∨ ∃ a t, r = (.ok a, t) ∧ (next a t).1 = .error e := by
  obtain ⟨e' | a, t⟩ := r <;> simp

namespace Judge

variable {j : Judge} {t t' s s' : Table} {limit again k n : Nat}

/-! ## What phases run enters none -/

/-- Running something never ends in that phases were entered too often. -/
theorem runWithin_notPhaseLoop {supplied : List Value} {levels : Nat} {p : Performable} :
    FailsOnly (¬ ·.IsPhaseLoop) (j.runWithin supplied levels p t).1 := by
  have hcondition : ∀ e : RuntimeError, e.IsOfCondition → ¬ e.IsPhaseLoop := fun _ h =>
    h.not_isPhaseLoop
  have haction : ∀ (a : ActionId) (t : Table), FailsOnly (¬ ·.IsPhaseLoop)
      (andThen (.ofExcept t (j.graph.action a)) fun a t =>
        j.effect a.verb a.parameters supplied t).1 := fun a t =>
    Answer.andThen_failsOnly (.orFail id) fun _ _ =>
      effect_failsOnly.mono fun e h => hcondition e h.isOfCondition
  induction levels generalizing p t with
  | zero =>
    cases p with
    | action a => exact haction a t
    | controlled next => exact Answer.andThen_failsOnly (.orFail id) fun _ _ => .error id
  | succ levels ih =>
    cases p with
    | action a => exact haction a t
    | controlled next =>
      exact Answer.andThen_failsOnly (.orFail id) fun _ _ =>
        controlled_failsOnly hcondition (fun _ _ _ => ih) id

/-- Running things in a row never ends in that phases were entered too often. -/
theorem runAll_notPhaseLoop {runs : List Performable} :
    FailsOnly (¬ ·.IsPhaseLoop) (j.runAll runs t).1 := by
  induction runs generalizing t with
  | nil => exact .ok
  | cons p ps ih =>
    unfold runAll
    split
    · exact .ok
    · exact Answer.andThen_failsOnly runWithin_notPhaseLoop fun _ _ => ih

/-- Responses never end in that phases were entered too often. -/
theorem respond_notPhaseLoop {supplied : List Value} {runs : List Performable} :
    FailsOnly (¬ ·.IsPhaseLoop) (j.respond supplied runs t).1 := by
  induction runs generalizing t with
  | nil => exact .ok
  | cons p ps ih => exact Answer.andThen_failsOnly runWithin_notPhaseLoop fun _ _ => ih

/-- Closing actions never end in that phases were entered too often. -/
theorem closeAction_notPhaseLoop {before : Position} :
    FailsOnly (¬ ·.IsPhaseLoop) (j.closeAction before t).1 := by
  unfold closeAction
  split
  · split
    · exact Answer.andThen_failsOnly (.orFail id) fun _ _ => runAll_notPhaseLoop
    · exact .ok
  · exact .ok

/-! ## Single entries -/

/-- Runs the opening actions of the phase that play is in; says whether they have moved play on. -/
def enterOnce (j : Judge) (t : Table) : Answer Bool :=
  andThen (j.runAll (j.opening t.position) t) fun _ t' => (.ok (t'.position ≠ t.position), t')

/-- A single entry never ends in that phases were entered too often. -/
theorem enterOnce_notPhaseLoop : FailsOnly (¬ ·.IsPhaseLoop) (j.enterOnce t).1 :=
  Answer.andThen_failsOnly runAll_notPhaseLoop fun _ _ => .ok

/-- Once the game is over, entering a phase does nothing. -/
theorem enterOnce_of_isOver (hover : t.isOver = true) : j.enterOnce t = (.ok false, t) := by
  have hrun : ∀ runs, j.runAll runs t = (.ok (), t) := fun runs => by
    cases runs with
    | nil => rfl
    | cons p ps => rw [runAll, if_pos hover]
  simp [enterOnce, hrun]

/-- Where play is in no phase, entering does nothing. -/
theorem enterOnce_of_none (hnone : t.position.phase = none) : j.enterOnce t = (.ok false, t) := by
  have hopening : j.opening t.position = [] := by
    rw [opening, hnone]
    rfl
  simp [enterOnce, hopening, runAll]

/-- Entering phases is entering one and, if that moved play on and the limit allows, entering
phases again. -/
theorem enterPhase_eq {id : PhaseId} {phase : Phase} (hid : t.position.phase = some id)
    (hphase : j.graph.phase id = .ok phase) :
    j.enterPhase limit again t = andThen (j.enterOnce t) fun moved t' =>
      if moved then
        match again with
        | 0 => (.error (.phaseLoop phase.name limit), t')
        | again + 1 => j.enterPhase limit again t'
      else (.ok (), t') := by
  cases hover : t.isOver with
  | true =>
    rw [enterOnce_of_isOver hover, enterPhase, hover, hid]
    rfl
  | false =>
    rw [enterPhase, hover, hid, enterOnce, opening_eq hid hphase]
    dsimp only
    rw [hphase, Answer.ofExcept, Answer.andThen_ok]
    obtain ⟨e | ⟨⟩, t'⟩ := j.runAll phase.start t
    · rfl
    · by_cases hthere : t'.position = t.position
      · simp [hthere]
      · cases again <;> simp [hthere]

/-- The phase that play is in, if it is in one, is there. -/
theorem exists_phase (hphases : t.InPhases j.graph.phases.length) :
    t.position.phase = none ∨
      ∃ id phase, t.position.phase = some id ∧ j.graph.phase id = .ok phase := by
  cases hid : t.position.phase with
  | none => exact .inl rfl
  | some id =>
    obtain ⟨phase, -, hphase⟩ := phase_ok (hphases.phaseOf?_lt hid)
    exact .inr ⟨id, phase, rfl, hphase⟩

/-- An entry that does not move play on is the last one. -/
theorem enterPhase_of_last (hphases : t.InPhases j.graph.phases.length)
    {r : Except RuntimeError Bool} (hlast : j.enterOnce t = (r, t')) (hr : r ≠ .ok true) :
    j.enterPhase limit again t = (r.map fun _ => (), t') := by
  rcases exists_phase hphases with hnone | ⟨id, phase, hid, hphase⟩
  · rw [enterOnce_of_none hnone] at hlast
    cases hlast
    rw [enterPhase, hnone]
    cases t.isOver <;> rfl
  · rw [enterPhase_eq hid hphase, hlast]
    obtain e | (_ | _) := r
    · rfl
    · rfl
    · exact absurd rfl hr

/-- An entry that moves play on is followed by another, if the limit allows. -/
theorem enterPhase_of_moved (limit : Nat) (hphases : t.InPhases j.graph.phases.length)
    (hmoved : j.enterOnce t = (.ok true, t')) :
    ∃ id phase, t.position.phase = some id ∧ j.graph.phase id = .ok phase ∧
      j.enterPhase limit 0 t = (.error (.phaseLoop phase.name limit), t') ∧
      ∀ again, j.enterPhase limit (again + 1) t = j.enterPhase limit again t' := by
  rcases exists_phase hphases with hnone | ⟨id, phase, hid, hphase⟩
  · rw [enterOnce_of_none hnone] at hmoved
    cases hmoved
  · refine ⟨id, phase, hid, hphase, ?_, fun again => ?_⟩ <;>
    · rw [enterPhase_eq hid hphase, hmoved]
      rfl

/-! ## Rows of entries -/

section

variable {p : Table → Prop} {l : Layout} (hg : j.graph.Closed l) (hj : j.Preserves p)

include hg hj

/-- An entry keeps what calls keep. -/
theorem enterOnce_keeps (ht : p t) : p (j.enterOnce t).2 := by
  have hrun : p (j.runAll (j.opening t.position) t).2 := by
    rcases exists_phase (hj.inPhases t ht) with hnone | ⟨id, phase, hid, hphase⟩
    · rw [opening, hnone]
      exact ht
    · rw [opening_eq hid hphase]
      have hmem := List.mem_of_getElem? (orFail_eq_ok.1 hphase)
      exact (runAll_keeps hg hj (start_known hg hmem) ht).1
  exact Answer.andThen_table hrun fun _ t' h => by rwa [h] at hrun

/-- What every entry keeps entries in a row keep. -/
theorem Effective.keeps (h : Effective j.enterOnce k t s) (ht : p t) : p s := by
  induction h with
  | zero => exact ht
  | succ h _ ih =>
    refine ih ?_
    have hkept := enterOnce_keeps hg hj ht
    rwa [h] at hkept

/-- Entries that move play on are left behind one by one. -/
theorem Effective.enterPhase_add (h : Effective j.enterOnce k t s) (ht : p t) (n : Nat) :
    j.enterPhase limit (k + n) t = j.enterPhase limit n s := by
  induction h with
  | zero => rw [Nat.zero_add]
  | @succ k t t' s h hs ih =>
    obtain ⟨_, _, -, -, -, hagain⟩ :=
      enterPhase_of_moved limit (hj.inPhases t ht) h
    have hkept := enterOnce_keeps hg hj ht
    rw [h] at hkept
    rw [Nat.succ_add, hagain, ih hkept]

end

/-- Of so many effective runs the last one follows the others. -/
theorem Effective.exists_last {run : Table → Answer Bool} (h : Effective run (n + 1) t s') :
    ∃ s, Effective run n t s ∧ run s = (.ok true, s') := by
  induction n generalizing t with
  | zero =>
    cases h with
    | succ hrun hs =>
      cases hs
      exact ⟨t, .zero t, hrun⟩
  | succ n ih =>
    cases h with
    | succ hrun hs =>
      obtain ⟨s, hs, hlast⟩ := ih hs
      exact ⟨s, .succ hrun hs, hlast⟩

/-- Fewer runs in a row take effect, too. -/
theorem Effective.of_le {run : Table → Answer Bool} {m : Nat} (h : Effective run n t s)
    (hm : m ≤ n) : ∃ s', Effective run m t s' := by
  induction h generalizing m with
  | zero t => exact ⟨t, by rw [Nat.le_zero.1 hm]; exact .zero t⟩
  | @succ n t t' s hrun _ ih =>
    cases m with
    | zero => exact ⟨t, .zero t⟩
    | succ m =>
      obtain ⟨s', hs'⟩ := ih (Nat.le_of_succ_le_succ hm)
      exact ⟨s', .succ hrun hs'⟩

/-- What entering phases comes to where at most so many of them may be entered in a row. -/
structure EntersUpTo (j : Judge) (limit : Nat) (t : Table) (answer : Answer Unit) : Prop where
  /-- If fewer entries than the limit move play on and the next one does not, play settles. -/
  settles : ∀ k s s', k < limit → Effective j.enterOnce k t s → j.enterOnce s = (.ok false, s') →
    answer = (.ok (), s')
  /-- If the next one fails instead, its error is passed on. -/
  fails : ∀ k s s' e, k < limit → Effective j.enterOnce k t s → j.enterOnce s = (.error e, s') →
    answer = (.error e, s')
  /-- If as many entries as the limit or more move play on, the last one allowed is named in the
  error, and play stays where it has moved to. -/
  exceeds : ∀ k s, limit ≤ k → Effective j.enterOnce k t s →
    ∃ s₁ s' id phase, Effective j.enterOnce (limit - 1) t s₁ ∧ j.enterOnce s₁ = (.ok true, s') ∧
      s₁.position.phase = some id ∧ j.graph.phase id = .ok phase ∧
      answer = (.error (.phaseLoop phase.name limit), s')
  /-- In no other case is there an error of this sort. -/
  loops_iff : (∃ e, answer.1 = .error e ∧ e.IsPhaseLoop) ↔ ∃ s, Effective j.enterOnce limit t s
  /-- There are no other cases. -/
  ends : (∃ s, Effective j.enterOnce limit t s) ∨
    ∃ k < limit, ∃ s s', Effective j.enterOnce k t s ∧
      (j.enterOnce s = (.ok false, s') ∨ ∃ e, j.enterOnce s = (.error e, s'))

/-- Entering phases keeps to the limit exactly. -/
theorem entersUpTo_enterPhase {p : Table → Prop} {l : Layout} (hg : j.graph.Closed l)
    (hj : j.Preserves p) (ht : p t) (hlimit : 1 ≤ limit) :
    j.EntersUpTo limit t (j.enterPhase limit (limit - 1) t) := by
  obtain ⟨again, rfl⟩ := Nat.exists_eq_add_of_le' hlimit
  rw [Nat.add_sub_cancel]
  have hlast : ∀ k s r s', k < again + 1 → Effective j.enterOnce k t s → j.enterOnce s = (r, s') →
      r ≠ .ok true → j.enterPhase (again + 1) again t = (r.map fun _ => (), s') := by
    intro k s r s' hk hs hlast hr
    obtain ⟨rest, rfl⟩ := Nat.exists_eq_add_of_le (Nat.le_of_lt_succ hk)
    rw [hs.enterPhase_add hg hj ht]
    exact enterPhase_of_last (hj.inPhases s (hs.keeps hg hj ht)) hlast hr
  have hexceeds : ∀ k s, again + 1 ≤ k → Effective j.enterOnce k t s →
      ∃ s₁ s' id phase, Effective j.enterOnce again t s₁ ∧ j.enterOnce s₁ = (.ok true, s') ∧
        s₁.position.phase = some id ∧ j.graph.phase id = .ok phase ∧
        j.enterPhase (again + 1) again t = (.error (.phaseLoop phase.name (again + 1)), s') := by
    intro k s hk hs
    obtain ⟨s', hs'⟩ := hs.of_le hk
    obtain ⟨s₁, hs₁, hmoved⟩ := hs'.exists_last
    obtain ⟨id, phase, hid, hphase, hloop, -⟩ :=
      enterPhase_of_moved (again + 1) (hj.inPhases s₁ (hs₁.keeps hg hj ht)) hmoved
    exact ⟨s₁, s', id, phase, hs₁, hmoved, hid, hphase, (hs₁.enterPhase_add hg hj ht 0).trans hloop⟩
  constructor
  case settles => exact fun k s s' hk hs hrun => hlast k s _ s' hk hs hrun nofun
  case fails => exact fun k s s' e hk hs hrun => hlast k s _ s' hk hs hrun nofun
  case exceeds => exact hexceeds
  case loops_iff =>
    constructor
    · rintro ⟨e, herror, he⟩
      refine (effective_or_last j.enterOnce (again + 1) t).resolve_right ?_
      rintro ⟨k, hk, s, r, s', hs, hrun, hr⟩
      rw [hlast k s r s' hk hs hrun hr] at herror
      cases r with
      | ok moved => cases herror
      | error e' =>
        cases herror
        exact enterOnce_notPhaseLoop _ (congrArg Prod.fst hrun) he
    · rintro ⟨s, hs⟩
      obtain ⟨_, _, _, _, -, -, -, -, herror⟩ := hexceeds _ s (Nat.le_refl _) hs
      exact ⟨_, congrArg Prod.fst herror, trivial⟩
  case ends =>
    refine (effective_or_last j.enterOnce (again + 1) t).imp_right ?_
    rintro ⟨k, hk, s, r, s', hs, hrun, hr⟩
    refine ⟨k, hk, s, s', hs, ?_⟩
    match r with
    | .ok false => exact .inl hrun
    | .ok true => exact absurd rfl hr
    | .error e => exact .inr ⟨e, hrun⟩

/-- One entry moves play on, and the next one does not. -/
def HopsOnce (j : Judge) (t : Table) : Prop :=
  (j.enterOnce t).1 = .ok true ∧ (j.enterOnce (j.enterOnce t).2).1 = .ok false

/-- Whether one entry moves play on and the next one does not can be tried out. -/
instance (j : Judge) (t : Table) : Decidable (j.HopsOnce t) := inferInstanceAs (Decidable (_ ∧ _))

/-- An entry that moves play on is one effective entry in a row. -/
theorem HopsOnce.effective (h : j.HopsOnce t) :
    Effective j.enterOnce 1 t (j.enterOnce t).2 := .succ (Prod.ext h.1 rfl) (.zero _)

/-- A limit of two is enough for one entry after the first. -/
theorem EntersUpTo.of_hopsOnce {answer : Answer Unit} (h : j.EntersUpTo limit t answer)
    (hhops : j.HopsOnce t) (hlimit : 1 < limit) : answer.1 = .ok () :=
  congrArg Prod.fst (h.settles 1 _ _ hlimit hhops.effective (Prod.ext hhops.2 rfl))

/-- A limit of one is not. -/
theorem EntersUpTo.fails_of_hopsOnce {answer : Answer Unit} (h : j.EntersUpTo 1 t answer)
    (hhops : j.HopsOnce t) : ∃ name, answer.1 = .error (.phaseLoop name 1) := by
  obtain ⟨_, _, _, phase, -, -, -, -, hloop⟩ := h.exceeds 1 _ (Nat.le_refl 1) hhops.effective
  exact ⟨phase.name, congrArg Prod.fst hloop⟩

end Judge

namespace Session

variable {s : Session} {g : Game} {count : Nat} {offer : Offer} {values : List Value} {t : Table}

/-- Looking up what is on offer never ends in that phases were entered too often. -/
theorem entryOf_notPhaseLoop : FailsOnly (¬ ·.IsPhaseLoop) (s.entryOf offer) := by
  unfold entryOf
  dsimp only
  split
  · exact .error id
  · exact .bind (.orFail id) fun _ _ => .orFail id

/-- A phase is entered from a table: an action took effect and its responses were run without the
game being over, and then play has gone from where it was, if need be after the closing actions. -/
def EntersAt (s : Session) (offer : Offer) (values : List Value) (t : Table) : Prop :=
  ∃ entry t₁ t₂, s.entryOf offer = .ok entry ∧ s.table.isOver = false ∧
    s.judge.run entry.action values s.table = (.ok true, t₁) ∧
    s.judge.respond values entry.responses t₁ = (.ok (), t₂) ∧ t₂.isOver = false ∧
    s.judge.closeAction s.table.position t₂ = (.ok (), t) ∧ t.position ≠ s.table.position

/-- Dealing changes no setting. -/
theorem config_dealt (s : Session) : s.dealt.config = s.config := by
  unfold dealt
  split <;> rfl

/-- What is performed then comes to what entering phases comes to. -/
theorem EntersAt.perform_eq (h : s.EntersAt offer values t) :
    s.perform offer values = s.after (andThen (s.judge.enterPhase s.config.maxPhaseChain
      (s.config.maxPhaseChain - 1) t) fun _ t => (.ok true, t)) := by
  obtain ⟨entry, t₁, t₂, hentry, hgoing, hrun, hrespond, hgoesOn, hclose, hgone⟩ := h
  rw [perform, hentry]
  dsimp only
  rw [hgoing, if_neg Bool.false_ne_true, carryOut, hrun, Answer.andThen_ok, hrespond,
    Answer.andThen_ok, if_pos rfl, Judge.settle, hgoesOn, if_neg Bool.false_ne_true, hclose,
    Answer.andThen_ok, if_neg hgone]

/-- Phases are entered too often only where one is entered. -/
theorem exists_entersAt {e : RuntimeError} (h : (s.perform offer values).1 = .error e)
    (he : e.IsPhaseLoop) : ∃ t, s.EntersAt offer values t := by
  unfold perform at h
  split at h
  next e' hentry =>
    cases h
    exact absurd he (entryOf_notPhaseLoop _ hentry)
  next entry hentry =>
    split at h
    next => cases h
    next hgoing =>
      obtain hrun | ⟨effective, t₁, hrun, h⟩ := Answer.andThen_eq_error.1 h
      · exact absurd he (Judge.runWithin_notPhaseLoop _ hrun)
      obtain hrespond | ⟨⟨⟩, t₂, hrespond, h⟩ := Answer.andThen_eq_error.1 h
      · exact absurd he (Judge.respond_notPhaseLoop _ hrespond)
      cases effective with
      | false => cases h
      | true =>
        obtain hsettle | ⟨_, _, -, h⟩ := Answer.andThen_eq_error.1 h
        · unfold Judge.settle at hsettle
          split at hsettle
          next => cases hsettle
          next hgoesOn =>
            obtain hclose | ⟨⟨⟩, t, hclose, hsettle⟩ := Answer.andThen_eq_error.1 hsettle
            · exact absurd he (Judge.closeAction_notPhaseLoop _ hclose)
            split at hsettle
            next => cases hsettle
            next hgone =>
              exact ⟨t, entry, t₁, t₂, hentry, Bool.eq_false_iff.2 hgoing, hrun, hrespond,
                Bool.eq_false_iff.2 hgoesOn, hclose, hgone⟩
        · cases h

/-- The table that a phase is entered from is within reach of play. -/
theorem InPlay.entersAt (hg : g.WellFormed) (h : s.InPlay g count)
    (ht : s.EntersAt offer values t) :
    t.Sound g.layout count g.graph.phases.length ∧ t.board.bag = s.table.board.bag := by
  obtain ⟨entry, t₁, t₂, hentry, -, hrun, hrespond, -, hclose, -⟩ := ht
  have hclosed := h.closed hg
  have hkeeps := h.preserves s.table.board.bag
  obtain ⟨phase, hphase, hmem⟩ := mem_allowed_of_entryOf hentry
  obtain ⟨haction, hresponses⟩ := Judge.allowed_known hclosed hphase hmem
  have h₁ : Answer.Keeps _ (s.judge.run entry.action values s.table) :=
    Judge.run_keeps hclosed hkeeps haction ⟨h.table, rfl⟩
  rw [hrun] at h₁
  have h₂ : Answer.Keeps _ (s.judge.respond values entry.responses t₁) :=
    Judge.respond_keeps hclosed hkeeps hresponses h₁.1
  rw [hrespond] at h₂
  have h₃ : Answer.Keeps _ (s.judge.closeAction s.table.position t₂) :=
    Judge.closeAction_keeps hclosed hkeeps h₂.1
  rw [hclose] at h₃
  exact h₃.1

/-- **The limit on entering phases is exact.** Let a session of a compiled game have a limit of at
least one, and take the row of entries that a start begins with, or an action that took effect and
after which a phase is entered.

If fewer entries than the limit move play on and the next one does not, play settles there, or an
error of the opening actions is passed on. If as many as the limit move play on, the row is cut off
there with an error that names the phase entered last. One of the two is always the case, and there
is no error of this sort in any other. -/
theorem entries_up_to_limit {rules deck board : Document} {brief : Option Document}
    {names : List String} {config : Config} {s₀ : Session}
    (hgame : Game.ofDocuments rules deck board brief = .ok g)
    (hs₀ : create g names config = .ok s₀) (hlimit : 1 ≤ config.maxPhaseChain)
    (asked : List (Σ α, Inquiry α)) :
    let s := s₀.askAll asked
    s.judge.EntersUpTo config.maxPhaseChain s.dealt.table (s.start.1, s.start.2.table) ∧
    ∀ offer values,
      let performed := s.perform offer values
      (∀ t, s.EntersAt offer values t → performed.1 ≠ .ok false ∧
        s.judge.EntersUpTo config.maxPhaseChain t
          (performed.1.map fun _ => (), performed.2.table)) ∧
      ∀ e, performed.1 = .error e → e.IsPhaseLoop → ∃ t, s.EntersAt offer values t := by
  intro s
  have hg := Game.wellFormed_of_ofDocuments hgame
  have hplay : s.InPlay g names.length := (inPlay_create hg hs₀).askAll hg asked
  have hconfig : s.config = config := by
    simp only [create, bind_ok, pure_ok] at hs₀
    obtain ⟨-, -, rfl⟩ := hs₀
    exact (setup_askAll _ asked).2
  have hclosed := hplay.closed hg
  refine ⟨?_, fun offer values => ⟨fun t ht => ?_, fun e => exists_entersAt⟩⟩
  · have hdealt := hplay.dealt hg
    have hkeeps := hdealt.preserves s.dealt.table.board.bag
    rw [judge_dealt] at hkeeps
    have hlimit' : s.dealt.config.maxPhaseChain = config.maxPhaseChain := by
      rw [config_dealt, hconfig]
    have henters := Judge.entersUpTo_enterPhase hclosed hkeeps ⟨hdealt.table, rfl⟩ hlimit
    rw [start_eq, judge_dealt, hlimit']
    exact henters
  · have henters := Judge.entersUpTo_enterPhase hclosed (hplay.preserves _)
      (hplay.entersAt hg ht) hlimit
    rw [ht.perform_eq, hconfig]
    generalize s.judge.enterPhase config.maxPhaseChain (config.maxPhaseChain - 1) t = r at henters
    obtain ⟨e | ⟨⟩, t'⟩ := r <;>
    · refine ⟨fun hfalse => ?_, henters⟩
      cases hfalse

/-! ## A phase that is left at once -/

/-- The rules of a game whose first phase is left for the second one as soon as it is entered; from
there one may go back. -/
def hoppingRules : Document where
  kind := .rules
  name := "hopping"
  lines := [
    "players 1",
    "action hop", "goto phase.second", "action back", "goto phase.first", "end-action",
    "phase first", "do hop", "phase second", "allow", "allow back", "end-allow", "end-phase"]

/-- A player sits down at the game of hopping, with a limit on the entries in a row. -/
def hopping (limit : Nat) : Compiled (Game × Session) := do
  let g ← Game.ofDocuments hoppingRules drawingDeck Graph.drawingBoard none
  let s ← create g ["ann"] { seed := 1, maxPhaseChain := limit }
  return (g, s)

/-- The start of the game and going back both enter the first phase, which moves play on, and then
the second one, which does not. -/
theorem hopping_entries (limit : Nat) (hlimit : limit ∈ [1, 2]) :
    ∃ g s, Game.ofDocuments hoppingRules drawingDeck Graph.drawingBoard none = .ok g ∧
      create g ["ann"] { seed := 1, maxPhaseChain := limit } = .ok s ∧
      s.judge.HopsOnce s.dealt.table ∧
      ∃ t, s.start.2.EntersAt ⟨⟨1⟩, 0, .action ⟨1⟩⟩ [] t ∧ s.start.2.judge.HopsOnce t := by
  have hsession : ∀ limit ∈ [1, 2], (hopping limit).toOption.any (fun (_, s) =>
      let entry : AllowedAction := ⟨.action ⟨1⟩, none, []⟩
      let s' := s.start.2
      let ran := s'.judge.run entry.action [] s'.table
      let closed := s'.judge.closeAction s'.table.position ran.2
      s.judge.HopsOnce s.dealt.table ∧ s'.entryOf ⟨⟨1⟩, 0, .action ⟨1⟩⟩ = .ok entry ∧
        s'.table.isOver = false ∧ ran.1 = .ok true ∧ ran.2.isOver = false ∧ closed.1 = .ok () ∧
        closed.2.position ≠ s'.table.position ∧ s'.judge.HopsOnce closed.2) = true := by
    decide +kernel
  have hsession := hsession limit hlimit
  cases h : hopping limit with
  | error e =>
    rw [h] at hsession
    cases hsession
  | ok made =>
    obtain ⟨g, s⟩ := made
    rw [h] at hsession
    obtain ⟨hstart, hentry, hgoing, hran, hgoesOn, hclosed, hgone, hhops⟩ :=
      of_decide_eq_true hsession
    simp only [hopping, bind_ok, pure_ok] at h
    obtain ⟨_, hgame, _, hs, heq⟩ := h
    cases heq
    exact ⟨g, s, hgame, hs, hstart, _, ⟨_, _, _, hentry, hgoing, Prod.ext hran rfl, rfl, hgoesOn,
      Prod.ext hclosed rfl, hgone⟩, hhops⟩

/-- A limit of two lets the game start and the player go back, and a limit of one neither. -/
theorem hopping_up_to_limit :
    (∃ g s, Game.ofDocuments hoppingRules drawingDeck Graph.drawingBoard none = .ok g ∧
      create g ["ann"] { seed := 1, maxPhaseChain := 2 } = .ok s ∧ s.start.1 = .ok () ∧
      (s.start.2.perform ⟨⟨1⟩, 0, .action ⟨1⟩⟩ []).1.map (fun _ => ()) = .ok ()) ∧
    ∃ g s, Game.ofDocuments hoppingRules drawingDeck Graph.drawingBoard none = .ok g ∧
      create g ["ann"] { seed := 1, maxPhaseChain := 1 } = .ok s ∧
      (∃ name, s.start.1 = .error (.phaseLoop name 1)) ∧
      ∃ name, (s.start.2.perform ⟨⟨1⟩, 0, .action ⟨1⟩⟩ []).1.map (fun _ => ()) =
        .error (.phaseLoop name 1) := by
  obtain ⟨g₂, s₂, hgame₂, hs₂, hstart₂, t₂, hback₂, hhops₂⟩ := hopping_entries 2 (by decide)
  obtain ⟨g₁, s₁, hgame₁, hs₁, hstart₁, t₁, hback₁, hhops₁⟩ := hopping_entries 1 (by decide)
  have hbegin₂ := (entries_up_to_limit hgame₂ hs₂ (by decide) []).1
  have hbegin₁ := (entries_up_to_limit hgame₁ hs₁ (by decide) []).1
  have hgo₂ := ((entries_up_to_limit hgame₂ hs₂ (by decide) [⟨_, .start⟩]).2 _ _).1 t₂ hback₂
  have hgo₁ := ((entries_up_to_limit hgame₁ hs₁ (by decide) [⟨_, .start⟩]).2 _ _).1 t₁ hback₁
  refine ⟨⟨g₂, s₂, hgame₂, hs₂, ?_, ?_⟩, g₁, s₁, hgame₁, hs₁, ?_, ?_⟩
  · exact hbegin₂.of_hopsOnce hstart₂ (by decide)
  · exact hgo₂.2.of_hopsOnce hhops₂ (by decide)
  · exact hbegin₁.fails_of_hopsOnce hstart₁
  · exact hgo₁.2.fails_of_hopsOnce hhops₁

end Session

end HouseRules
