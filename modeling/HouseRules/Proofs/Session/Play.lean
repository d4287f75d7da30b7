import HouseRules.Proofs.Judge
import HouseRules.Session

/-!
# What play keeps

None of what a session is asked, but for a start and a reset, changes more of it than the table. And
the lists that phases run, the responses to an action and the settling of play are runs one after
the other, so they keep what calls of verbs keep (`Judge.Preserves`), and on a closed graph they
look nothing up in vain. So a session keeps of its table what calls keep (`Session.perform_keeps`
and the like).
-/

namespace HouseRules

namespace Session

/-! ## What is left alone -/

/-- Asking what is allowed changes no more than the table. -/
theorem snd_allowedFor (s : Session) (seat : Seat) :
    (s.allowedFor seat).2 = { s with table := (s.allowedFor seat).2.table } := by
  unfold allowedFor
  split
  · rfl
  · split <;> rfl

/-- Checking a condition changes no more than the table. -/
theorem snd_checkCondition (s : Session) (name : String) :
    (s.checkCondition name).2 = { s with table := (s.checkCondition name).2.table } := by
  unfold checkCondition
  split <;> rfl

/-- Performing what is on offer changes no more than the table. -/
theorem snd_perform (s : Session) (offer : Offer) (values : List Value) :
    (s.perform offer values).2 = { s with table := (s.perform offer values).2.table } := by
  unfold perform
  split
  · rfl
  · split <;> rfl

/-- Asking what a player may do does not start a game. -/
theorem started_allowedFor (s : Session) (seat : Seat) :
    (s.allowedFor seat).2.started = s.started := by
  rw [snd_allowedFor]

/-- Checking a condition does not start a game. -/
theorem started_checkCondition (s : Session) (name : String) :
    (s.checkCondition name).2.started = s.started := by
  rw [snd_checkCondition]

/-- Performing something does not start a game. -/
theorem started_perform (s : Session) (offer : Offer) (values : List Value) :
    (s.perform offer values).2.started = s.started := by
  rw [snd_perform]

/-- The session that a start enters the first phase with. -/
def dealt (s : Session) : Session := (if s.started then s.reset else s).deal

/-- Dealing leaves what applies the components as it is. -/
theorem judge_dealt (s : Session) : s.dealt.judge = s.judge := by
  unfold dealt
  split <;> rfl

/-- Starting is dealing and then entering the first phase. -/
theorem start_eq (s : Session) :
    s.start = s.dealt.after (s.dealt.judge.enterPhase s.dealt.config.maxPhaseChain
      (s.dealt.config.maxPhaseChain - 1) s.dealt.table) := rfl

end Session

/-! ## What is kept -/

namespace Judge

open Answer (Keeps)

variable {j : Judge} {p : Table → Prop} {l : Layout} {t : Table}

/-- Running things in a row keeps what calls keep. -/
theorem runAll_keeps (hg : j.graph.Closed l) (hj : j.Preserves p) {runs : List Performable}
    (hruns : ∀ run ∈ runs, run.Known j.graph) (ht : p t) : Keeps p (j.runAll runs t) := by
  induction runs generalizing t with
  | nil => exact .ok ht
  | cons run runs ih =>
    unfold runAll
    split
    · exact .ok ht
    · refine .andThen (run_keeps hg hj (hruns run List.mem_cons_self) ht) fun _ t _ ht => ?_
      exact ih (fun run hrun => hruns run (List.mem_cons_of_mem _ hrun)) ht

/-- Running responses keeps what calls keep. -/
theorem respond_keeps (hg : j.graph.Closed l) (hj : j.Preserves p) {supplied : List Value}
    {runs : List Performable} (hruns : ∀ run ∈ runs, run.Known j.graph) (ht : p t) :
    Keeps p (j.respond supplied runs t) := by
  induction runs generalizing t with
  | nil => exact .ok ht
  | cons run runs ih =>
    refine .andThen (run_keeps hg hj (hruns run List.mem_cons_self) ht) fun _ t _ ht => ?_
    exact ih (fun run hrun => hruns run (List.mem_cons_of_mem _ hrun)) ht

/-- A phase of the graph is found among those of the graph. -/
theorem phase_ok {g : Graph} {id : PhaseId} (h : id.index < g.phases.length) :
    ∃ phase ∈ g.phases, g.phase id = .ok phase :=
  ⟨g.phases[id.index], List.getElem_mem h, orFail_eq_ok.2 (List.getElem?_eq_getElem h)⟩

/-- What a phase opens with is of the graph. -/
theorem start_known (hg : j.graph.Closed l) {phase : Phase} (hphase : phase ∈ j.graph.phases) :
    ∀ run ∈ phase.start, run.Known j.graph := fun _ hrun =>
  hg.performable_known hphase (List.mem_append_left _ (List.mem_append_left _ hrun))

/-- What a phase closes with is of the graph. -/
theorem finish_known (hg : j.graph.Closed l) {phase : Phase} (hphase : phase ∈ j.graph.phases) :
    ∀ run ∈ phase.finish, run.Known j.graph := fun _ hrun =>
  hg.performable_known hphase (List.mem_append_right _ hrun)

/-- What a phase allows is of the graph, and so are the responses. -/
theorem allowed_known (hg : j.graph.Closed l) {phase : Phase} (hphase : phase ∈ j.graph.phases)
    {entry : AllowedAction} (hentry : entry ∈ phase.allowed) :
    entry.action.Known j.graph ∧ ∀ run ∈ entry.responses, run.Known j.graph := by
  have hmem : ∀ run ∈ entry.action :: entry.responses, run.Known j.graph := fun run hrun =>
    hg.performable_known hphase <| List.mem_append_left _ <| List.mem_append_right _ <|
      List.mem_flatMap.2 ⟨entry, hentry, hrun⟩
  exact ⟨hmem _ List.mem_cons_self, fun run hrun => hmem run (List.mem_cons_of_mem _ hrun)⟩

/-- Entering phases keeps what calls keep, however often play moves on. -/
theorem enterPhase_keeps (hg : j.graph.Closed l) (hj : j.Preserves p) {limit again : Nat}
    (ht : p t) : Keeps p (j.enterPhase limit again t) := by
  induction again using Nat.strong_induction_on generalizing t with
  | _ again ih =>
    unfold enterPhase
    dsimp only
    split
    · exact .ok ht
    · exact .ok ht
    next phaseId _ hid =>
      obtain ⟨phase, hphase, hok⟩ := phase_ok ((hj.inPhases t ht).phaseOf?_lt hid)
      simp only [Answer.ofExcept, hok, Answer.andThen_ok]
      refine .andThen (runAll_keeps hg hj (start_known hg hphase) ht) fun _ t _ ht => ?_
      split
      · exact .ok ht
      · split
        · exact .error ht id
        · exact ih _ (Nat.lt_succ_self _) ht

/-- Closing an action keeps what calls keep; if anything is run, play is where it was. -/
theorem closeAction_keeps (hg : j.graph.Closed l) (hj : j.Preserves p) {before : Position}
    (ht : p t) : Keeps p (j.closeAction before t) := by
  unfold closeAction
  split
  next id hid =>
    split
    next hposition =>
      have hphaseOf : t.phaseOf? t.current = some id := by
        rw [← hid, ← hposition]
        rfl
      obtain ⟨phase, hphase, hok⟩ := phase_ok ((hj.inPhases t ht).phaseOf?_lt hphaseOf)
      simp only [Answer.ofExcept, hok, Answer.andThen_ok]
      exact runAll_keeps hg hj (finish_known hg hphase) ht
    next => exact .ok ht
  next => exact .ok ht

/-- Settling keeps what calls keep. -/
theorem settle_keeps (hg : j.graph.Closed l) (hj : j.Preserves p) {limit : Nat}
    {before : Position} (ht : p t) : Keeps p (j.settle limit before t) := by
  unfold settle
  split
  · exact .ok ht
  · refine .andThen (closeAction_keeps hg hj ht) fun _ t _ ht => ?_
    split
    · exact .ok ht
    · exact enterPhase_keeps hg hj ht

/-- Finding out what is permitted keeps what calls keep. -/
theorem permitted_keeps (hg : j.graph.Closed l) (hj : j.Preserves p) {phase : PhaseId}
    {index : Nat} {entries : List AllowedAction}
    (hentries : ∀ entry ∈ entries, ∀ r, entry.precondition = some r →
      r.id.index < j.graph.conditions.length) (ht : p t) :
    Keeps p (j.permitted phase index entries t) := by
  induction entries generalizing index t with
  | nil => exact .ok ht
  | cons entry entries ih =>
    unfold permitted
    refine .andThen ?_ fun permission t _ ht => ?_
    · split
      next r hr => exact holds_keeps hg hj (hentries entry List.mem_cons_self r hr) ht
      next => exact .ok ht
    · refine .andThen (ih (fun e he => hentries e (List.mem_cons_of_mem _ he)) ht) ?_
      exact fun offers t _ ht => .ok ht

end Judge

namespace Session

variable {s : Session} {l : Layout} {p : Table → Prop}

/-- An offer that is accepted stands for an entry of the current phase. -/
theorem mem_allowed_of_entryOf {offer : Offer} {entry : AllowedAction}
    (h : s.entryOf offer = .ok entry) :
    ∃ phase ∈ s.game.graph.phases, entry ∈ phase.allowed := by
  simp only [entryOf, guard_ok, bind_ok, orFail_eq_ok, Option.filter_eq_some_iff] at h
  obtain ⟨-, phase, hphase, hentry, -⟩ := h
  exact ⟨phase, List.mem_of_getElem? (orFail_eq_ok.1 hphase), List.mem_of_getElem? hentry⟩

/-- A start keeps what the deal has brought about. -/
theorem start_keeps (hg : s.judge.graph.Closed l) (hj : s.judge.Preserves p)
    (ht : p s.dealt.table) : p s.start.2.table := by
  rw [← s.judge_dealt] at hg hj
  rw [start_eq]
  exact (Judge.enterPhase_keeps hg hj ht).1

/-- Asking what a player may do keeps what calls keep. -/
theorem allowedFor_keeps (hg : s.judge.graph.Closed l) (hj : s.judge.Preserves p) (ht : p s.table)
    (seat : Seat) : p (s.allowedFor seat).2.table := by
  unfold allowedFor
  split
  · exact ht
  · split
    · exact ht
    next id hid =>
      obtain ⟨phase, hphase, hok⟩ := Judge.phase_ok ((hj.inPhases _ ht).phaseOf?_lt hid)
      have hok : s.game.graph.phase id = .ok phase := hok
      simp only [Answer.ofExcept, hok, Answer.andThen_ok]
      exact (Judge.permitted_keeps hg hj
        (fun _ hentry _ hr => hg.precondition_lt hphase hentry hr) ht).1

/-- Checking a condition keeps what calls keep. -/
theorem checkCondition_keeps (hg : s.judge.graph.Closed l) (hj : s.judge.Preserves p)
    (ht : p s.table) (name : String) : p (s.checkCondition name).2.table := by
  unfold checkCondition
  split
  · exact ht
  next id hid =>
    obtain ⟨i, hi, rfl⟩ := Option.map_eq_some_iff.1 hid
    have hlt := (List.findIdx?_eq_some_iff_getElem.1 hi).1
    exact (Judge.condition_keeps hg hj hlt ht).1

/-- Performing what is on offer keeps what calls keep. -/
theorem perform_keeps (hg : s.judge.graph.Closed l) (hj : s.judge.Preserves p) (ht : p s.table)
    (offer : Offer) (values : List Value) : p (s.perform offer values).2.table := by
  unfold perform
  split
  · exact ht
  next entry hentry =>
    split
    · exact ht
    · obtain ⟨phase, hphase, hmem⟩ := mem_allowed_of_entryOf hentry
      obtain ⟨haction, hresponses⟩ := Judge.allowed_known hg hphase hmem
      suffices h : Answer.Keeps p (s.carryOut entry values) from h.1
      refine .andThen (Judge.run_keeps hg hj haction ht) fun _ t _ ht => ?_
      refine .andThen (Judge.respond_keeps hg hj hresponses ht) fun _ t _ ht => ?_
      split
      · exact .andThen (Judge.settle_keeps hg hj ht) fun _ t _ ht => .ok ht
      · exact .ok ht

end Session

end HouseRules
