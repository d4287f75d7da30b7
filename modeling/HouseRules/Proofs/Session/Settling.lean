import HouseRules.Proofs.Session.Offers
import HouseRules.Proofs.Session.Placed

/-!
# How play settles

What runs after a move is described by relations between tables that say nothing of limits and
errors: things are run in order (`Judge.Carries`), or in order until the game is over
(`Judge.CarriesOn`), and phases are entered one after the other until play stays (`Judge.Enters`).
The runs of a session that come to an end are of this sort.

Entering ends in one of two ways: the game is over, or all opening actions of the phase that play is
in then have been run from a table where play already was there (`Judge.Settled`). How often play
was moved on before, and by what, does not matter, since only the last round does.

Reference: `Engine.settle`, `Engine.enter_phase` (specification 4.5, 9).
-/

namespace HouseRules

open Answer (andThen)

/-- A look-up that succeeds leaves the table as it is. -/
theorem Answer.ofExcept_eq_ok {α : Type} {t t' : Table} {x : Except RuntimeError α} {a : α} :
    Answer.ofExcept t x = (.ok a, t') ↔ x = .ok a ∧ t = t' := by
  rw [ofExcept, Prod.mk.injEq]

namespace Judge

variable {j : Judge} {t t' : Table} {runs : List Performable}

/-! ## Running in order -/

/-- Things have been run in order, each of them with no values supplied. -/
inductive Carries (j : Judge) : List Performable → Table → Table → Prop
  | nil (t : Table) : Carries j [] t t
  | cons {p : Performable} {ps : List Performable} {t t₁ t' : Table} {effective : Bool}
      (head : j.run p [] t = (.ok effective, t₁)) (tail : Carries j ps t₁ t') :
      Carries j (p :: ps) t t'

/-- Things have been run in order until the game was over. -/
inductive CarriesOn (j : Judge) : List Performable → Table → Table → Prop
  | nil (t : Table) : CarriesOn j [] t t
  | ended {ps : List Performable} {t : Table} (ended : t.isOver = true) : CarriesOn j ps t t
  | cons {p : Performable} {ps : List Performable} {t t₁ t' : Table} {effective : Bool}
      (going : t.isOver = false) (head : j.run p [] t = (.ok effective, t₁))
      (tail : CarriesOn j ps t₁ t') : CarriesOn j (p :: ps) t t'

/-- Where the game goes on, nothing has been left out. -/
theorem CarriesOn.carries (h : j.CarriesOn runs t t') (hgoing : t'.isOver = false) :
    j.Carries runs t t' := by
  induction h with
  | nil t => exact .nil t
  | ended hover => exact absurd (hover.symm.trans hgoing) (by decide)
  | cons _ head _ ih => exact .cons head (ih hgoing)

/-- Things that are run in a row without an error are carried on one after the other. -/
theorem carriesOn_of_runAll (h : j.runAll runs t = (.ok (), t')) : j.CarriesOn runs t t' := by
  induction runs generalizing t with
  | nil =>
    cases h
    exact .nil _
  | cons p ps ih =>
    unfold runAll at h
    split at h
    next hover =>
      cases h
      exact .ended hover
    next hgoing =>
      obtain ⟨effective, t₁, head, h⟩ := Answer.andThen_eq_ok.1 h
      exact .cons (Bool.eq_false_iff.2 hgoing) head (ih h)

/-! ## Entering -/

/-- The opening actions of the phase of a position; none if it has no phase. -/
def opening (j : Judge) (position : Position) : List Performable :=
  ((position.phase.bind fun id => j.graph.phases[id.index]?).map (·.start)).getD []

/-- Play opens with what its phase starts with. -/
theorem opening_eq {position : Position} {id : PhaseId} {phase : Phase}
    (hid : position.phase = some id) (hphase : j.graph.phase id = .ok phase) :
    j.opening position = phase.start := by
  rw [opening, hid, Option.bind_some, orFail_eq_ok.1 hphase]
  rfl

/-- Phases have been entered one after the other until play stayed or the game was over. -/
inductive Enters (j : Judge) : Table → Table → Prop
  | ended {t : Table} (ended : t.isOver = true) : Enters j t t
  | stays {t t' : Table} (run : j.CarriesOn (j.opening t.position) t t')
      (there : t'.position = t.position) : Enters j t t'
  | moves {t t₁ t' : Table} (run : j.CarriesOn (j.opening t.position) t t₁)
      (gone : t₁.position ≠ t.position) (next : Enters j t₁ t') : Enters j t t'

/-- Entering phases without an error goes from one to the next until play stays. -/
theorem enters_of_enterPhase {limit again : Nat}
    (h : j.enterPhase limit again t = (.ok (), t')) : j.Enters t t' := by
  induction again using Nat.strong_induction_on generalizing t with
  | _ again ih =>
    unfold enterPhase at h
    dsimp only at h
    split at h
    next hover =>
      cases h
      exact .ended hover
    next hnone =>
      cases h
      refine .stays ?_ rfl
      rw [opening, hnone]
      exact .nil _
    next id _ hid =>
      obtain ⟨phase, t₁, hfound, h⟩ := Answer.andThen_eq_ok.1 h
      obtain ⟨hphase, rfl⟩ := Answer.ofExcept_eq_ok.1 hfound
      obtain ⟨⟨⟩, t₂, hrun, h⟩ := Answer.andThen_eq_ok.1 h
      have hopening := carriesOn_of_runAll hrun
      rw [← opening_eq hid hphase] at hopening
      split at h
      next hthere =>
        cases h
        exact .stays hopening hthere
      next hgone =>
        split at h
        · cases h
        · exact .moves hopening hgone (ih _ (Nat.lt_succ_self _) h)

/-- Play has settled: the game is over, or all opening actions of the phase that play is in have
been run from a table where play was there already. -/
def Settled (j : Judge) (t' : Table) : Prop :=
  t'.isOver = true ∨
    ∃ t, t.position = t'.position ∧ j.Carries (j.opening t'.position) t t'

/-- Entering settles play. -/
theorem Enters.settled (h : j.Enters t t') : j.Settled t' := by
  induction h with
  | ended hover => exact .inl hover
  | @stays t t' hrun hthere =>
    cases hover : t'.isOver with
    | true => exact .inl hover
    | false => exact .inr ⟨t, hthere.symm, hthere ▸ hrun.carries hover⟩
  | moves _ _ _ ih => exact ih

/-! ## Settling -/

/-- What follows an action that took effect in a phase and its responses. The game is over; or play
has gone from where it was, and a phase is entered; or it has not, the closing actions are run until
the game is over, and only then, if play has gone, a phase is entered. -/
inductive Settles (j : Judge) (before : Position) (finish : List Performable) :
    Table → Table → Prop
  | ended {t : Table} (ended : t.isOver = true) : Settles j before finish t t
  | gone {t t' : Table} (going : t.isOver = false) (gone : t.position ≠ before)
      (enters : j.Enters t t') : Settles j before finish t t'
  | closed {t t' : Table} (going : t.isOver = false) (there : t.position = before)
      (closing : j.CarriesOn finish t t') (stays : t'.position = before) :
      Settles j before finish t t'
  | left {t t₁ t' : Table} (going : t.isOver = false) (there : t.position = before)
      (closing : j.CarriesOn finish t t₁) (gone : t₁.position ≠ before) (enters : j.Enters t₁ t') :
      Settles j before finish t t'

/-- Where play is not where it was, it has settled. -/
theorem Settles.settled {before : Position} {finish : List Performable}
    (h : j.Settles before finish t t') (hmoved : t'.position ≠ before) : j.Settled t' := by
  cases h with
  | ended hover => exact .inl hover
  | gone _ _ enters => exact enters.settled
  | closed _ _ _ stays => exact absurd stays hmoved
  | left _ _ _ _ enters => exact enters.settled

/-- Settling without an error closes the phase if play has stayed in it, and enters the next one if
play has then left it. -/
theorem settles_of_settle {limit : Nat} {before : Position} {id : PhaseId} {phase : Phase}
    (hid : before.phase = some id) (hphase : j.graph.phase id = .ok phase)
    (h : j.settle limit before t = (.ok (), t')) : j.Settles before phase.finish t t' := by
  unfold settle at h
  split at h
  next hover =>
    cases h
    exact .ended hover
  next hgoing =>
    replace hgoing := Bool.eq_false_iff.2 hgoing
    obtain ⟨⟨⟩, t₁, hclose, h⟩ := Answer.andThen_eq_ok.1 h
    simp only [closeAction, hid] at hclose
    split at hclose
    next hthere =>
      obtain ⟨phase', _, hfound, hfinish⟩ := Answer.andThen_eq_ok.1 hclose
      obtain ⟨hphase', rfl⟩ := Answer.ofExcept_eq_ok.1 hfound
      cases hphase.symm.trans hphase'
      have hclosing := carriesOn_of_runAll hfinish
      split at h
      next hstays =>
        cases h
        exact .closed hgoing hthere hclosing hstays
      next hgone => exact .left hgoing hthere hclosing hgone (enters_of_enterPhase h)
    next hgone =>
      cases hclose
      rw [if_neg hgone] at h
      exact .gone hgoing hgone (enters_of_enterPhase h)

end Judge

namespace Session

variable {s s' : Session} {g : Game} {count : Nat}

/-! ## Moves -/

/-- The start of a game settles play. -/
theorem settled_of_start (h : s.start = (.ok (), s')) : s.judge.Settled s'.table := by
  obtain ⟨hresult, rfl⟩ := Prod.mk.inj h
  rw [← s.judge_dealt]
  exact (Judge.enters_of_enterPhase (Prod.ext hresult rfl)).settled

/-- An action that took effect was run, then its responses, and then play has settled as the phase
that the action was taken in has it. -/
theorem settles_of_perform {offer : Offer} {values : List Value}
    (h : s.perform offer values = (.ok true, s')) :
    s.table.position.phase = some offer.phase ∧
      ∃ phase entry t₁ t₂, s.game.graph.phase offer.phase = .ok phase ∧
        phase.allowed[offer.index]? = some entry ∧
        s.judge.run entry.action values s.table = (.ok true, t₁) ∧
        s.judge.respond values entry.responses t₁ = (.ok (), t₂) ∧
        s.judge.Settles s.table.position phase.finish t₂ s'.table := by
  unfold perform at h
  split at h
  · cases h
  next entry hentry =>
    obtain ⟨hposition, phase, hphase, hplace, -⟩ := entryOf_ok.1 hentry
    split at h
    · cases h
    · obtain ⟨hresult, rfl⟩ := Prod.mk.inj h
      obtain ⟨effective, t₁, hrun, h⟩ := Answer.andThen_eq_ok.1 (Prod.ext hresult rfl)
      obtain ⟨⟨⟩, t₂, hrespond, h⟩ := Answer.andThen_eq_ok.1 h
      split at h
      next heffective =>
        obtain ⟨⟨⟩, t₃, hsettle, h⟩ := Answer.andThen_eq_ok.1 h
        obtain ⟨-, rfl⟩ := Prod.mk.inj h
        subst heffective
        exact ⟨hposition, phase, entry, t₁, t₂, hphase, hplace, hrun, hrespond,
          Judge.settles_of_settle hposition hphase hsettle⟩
      next => cases h

/-- **After a move play has settled.** When a game has been started, or something has been performed
that has moved play on, the game is over or all opening actions of the phase that play is in have
been run from a table where play was there. What was performed was run, and then its responses; if
play is then where it was and the game goes on, the closing actions of the phase are run in order
until the game is over, and phases are entered only after that. Once the game has started, play is
always in a phase. -/
theorem settled_of_move {rules deck board : Document} {brief : Option Document}
    {names : List String} {config : Config} {s₀ : Session}
    (hgame : Game.ofDocuments rules deck board brief = .ok g)
    (hs₀ : create g names config = .ok s₀) (requests : List Request) :
    let s := s₀.answerAll requests
    (∀ s', s.start = (.ok (), s') →
      s'.table.position.phase.isSome = true ∧ s.judge.Settled s'.table) ∧
    ∀ offer values s', s.perform offer values = (.ok true, s') →
      (s.started = true → s'.table.position.phase.isSome = true) ∧
      (s'.table.position ≠ s.table.position → s.judge.Settled s'.table) ∧
      ∃ phase entry t₁ t₂, s.game.graph.phase offer.phase = .ok phase ∧
        phase.allowed[offer.index]? = some entry ∧
        s.judge.run entry.action values s.table = (.ok true, t₁) ∧
        s.judge.respond values entry.responses t₁ = (.ok (), t₂) ∧
        (t₂.position = s.table.position → t₂.isOver = false →
          ∃ t₃, s.judge.CarriesOn phase.finish t₂ t₃ ∧
            (t₃.position = s.table.position ∧ s'.table = t₃ ∨
              t₃.position ≠ s.table.position ∧ s.judge.Enters t₃ s'.table)) := by
  intro s
  have hg := Game.wellFormed_of_ofDocuments hgame
  have hcreated : s₀.InPlay g names.length := inPlay_create hg hs₀
  have hplay : s.InPlay g names.length := hcreated.answerAll hg requests
  have hplaced : s.Placed :=
    hcreated.placed_answerAll hg (placed_create hs₀) requests
  refine ⟨fun s' h => ⟨?_, settled_of_start h⟩, fun offer values s' h => ?_⟩
  · obtain rfl : s.start.2 = s' := congrArg Prod.snd h
    exact (hplay.start hg).isSome_position (fun _ => hplay.placed_start hg) rfl
  · obtain ⟨-, phase, entry, t₁, t₂, hphase, hplace, hrun, hrespond, hsettles⟩ :=
      settles_of_perform h
    refine ⟨fun hstarted => ?_, hsettles.settled, phase, entry, t₁, t₂, hphase, hplace, hrun,
      hrespond, fun hthere hgoing => ?_⟩
    · have hanswer : (s.answer (.perform offer values)).Placed :=
        hplay.placed_answer hg hplaced (.perform offer values)
      obtain rfl : (s.perform offer values).2 = s' := congrArg Prod.snd h
      exact (hplay.perform hg offer values).isSome_position hanswer
        ((s.started_perform offer values).trans hstarted)
    · cases hsettles with
      | ended hover => exact absurd (hover.symm.trans hgoing) (by decide)
      | gone _ hgone _ => exact absurd hthere hgone
      | closed _ _ hclosing hstays => exact ⟨_, hclosing, .inl ⟨hstays, rfl⟩⟩
      | left _ _ hclosing hgone henters => exact ⟨_, hclosing, .inr ⟨hgone, henters⟩⟩

/-! ## Two players take turns -/

/-- The rules of a game in which whoever takes a turn turns the direction of play round, and may do
so again before the turn is over. -/
def turningRules : Document where
  kind := .rules
  name := "turning"
  lines := [
    "players 2",
    "deal", "common-piles draw all", "deal-end",
    "action turn-round", "reverse-direction",
    "action pass", "end-turn", "end-action",
    "phase turn", "do turn-round", "allow", "allow turn-round", "end-allow", "do pass", "end-phase"]

/-- Two players sit down at the game of turning. -/
def turning : Compiled (Game × Session) := do
  let g ← Game.ofDocuments turningRules drawingDeck Graph.drawingBoard none
  let s ← create g ["ann", "bob"] { seed := 1 }
  return (g, s)

/-- They begin, and the first one turns the direction round: the closing action passes the turn, and
the opening action is run for the second player. -/
theorem turning_settled :
    ∃ g s₀, Game.ofDocuments turningRules drawingDeck Graph.drawingBoard none = .ok g ∧
      create g ["ann", "bob"] { seed := 1 } = .ok s₀ ∧
      let s := s₀.answerAll [.start]
      ∃ s', s.perform ⟨⟨0⟩, 0, .action ⟨0⟩⟩ [] = (.ok true, s') ∧
        s'.table.position ≠ s.table.position ∧
        ∃ t, t.position = s'.table.position ∧
          s.judge.Carries (s.judge.opening s'.table.position) t s'.table := by
  have hok : turning.isOk = true := by decide +kernel
  have hmoves : turning.toOption.any (fun (_, s₀) =>
      let s := s₀.answerAll [.start]
      let performed := s.perform ⟨⟨0⟩, 0, .action ⟨0⟩⟩ []
      performed.1 = .ok true ∧ performed.2.table.isOver = false ∧
        performed.2.table.position ≠ s.table.position) = true := by decide +kernel
  obtain ⟨⟨g, s₀⟩, h⟩ := Succeeds.of_isOk hok
  rw [h] at hmoves
  obtain ⟨hperform, hgoing, hmoved⟩ := of_decide_eq_true hmoves
  simp only [turning, bind_ok, pure_ok] at h
  obtain ⟨_, hgame, _, hs₀, heq⟩ := h
  cases heq
  obtain ⟨-, hsettled, -⟩ := (settled_of_move hgame hs₀ [.start]).2 _ _ _ (Prod.ext hperform rfl)
  refine ⟨g, s₀, hgame, hs₀, _, Prod.ext hperform rfl, hmoved, ?_⟩
  exact (hsettled hmoved).resolve_left (by rw [hgoing]; exact Bool.false_ne_true)

end Session

end HouseRules
