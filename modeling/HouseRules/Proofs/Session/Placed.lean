import HouseRules.Proofs.Session.Conservation

/-!
# Players in phases

Once a game has started every player is in a phase, and stays in one: the start puts everyone into
the start phase, a reset, which takes everyone out, also takes the start back, and no verb leaves a
player without a phase (`Session.InPlay.placed_answerAll`). Before the start players need not be in
a phase, and one of them may be, since evaluating a condition can put them there.
-/

namespace HouseRules

namespace Table

/-- Every player is in a phase. -/
def Placed (t : Table) : Prop := ∀ p ∈ t.players, p.phase.isSome = true

variable {t t' : Table}

/-- Whether every player is in a phase depends on the players alone. -/
theorem Placed.congr (h : t.Placed) (hplayers : t'.players = t.players) : t'.Placed := by
  rw [Placed, hplayers]
  exact h

/-- A change that leaves a player in a phase leaves all of them there. -/
theorem Placed.modifyPlayer (h : t.Placed) {seat : Seat} {change : Player → Player}
    (hchange : ∀ p, p.phase.isSome = true → (change p).phase.isSome = true) :
    (t.modifyPlayer seat change).Placed := by
  intro p hp
  obtain ⟨i, hi⟩ := List.mem_iff_getElem?.1 hp
  rw [Table.modifyPlayer, List.getElem?_modify] at hi
  obtain ⟨q, hq, rfl⟩ := Option.map_eq_some_iff.1 hi
  have hmem := h q (List.mem_of_getElem? hq)
  split
  · exact hchange q hmem
  · exact hmem

/-- The player whose turn it is is in a phase. -/
theorem Placed.isSome_position (h : t.Placed) (hcurrent : t.current.index < t.count) :
    t.position.phase.isSome = true := by
  have hplayer : t.player? t.current = some t.players[t.current.index] :=
    List.getElem?_eq_getElem hcurrent
  rw [position, phaseOf?, hplayer]
  exact h _ (List.getElem_mem hcurrent)

end Table

/-- No operation takes a player out of a phase. -/
theorem Operation.placed_run {t : Table} (ranking : Ranking) (op : Operation) (h : t.Placed) :
    (op.run ranking t).2.Placed := by
  cases op with
  | endTurn =>
    obtain ⟨seat, turn, heq, -⟩ := t.advanceTurn_eq
    rw [run, heq]
    exact h
  | enterPhase phase => exact h.modifyPlayer fun _ _ => rfl
  | setStatus seat status => exact h.modifyPlayer fun _ hp => hp
  | shuffle piles => exact h.congr (shuffleAll_players t piles).1
  | transfer | transferTop | exchange | remove => exact h.congr (moved_players t _).1
  | _ => exact h

/-- Calls leave everyone in a phase of the game. -/
theorem Judge.preserves_placed (j : Judge) :
    j.Preserves fun t => t.InPhases j.graph.phases.length ∧ t.Placed where
  dispatch _ t outcome t' ht h := by
    obtain ⟨op, -, hrun⟩ := Operation.dispatch_ok.1 h
    have hplaced := op.placed_run j.ranking ht.2
    rw [hrun] at hplaced
    exact ⟨Operation.inPhases_dispatch ht.1 h, hplaced⟩
  inPhases _ ht := ht.1

namespace Session

/-! ## Once the game has started -/

variable {s : Session} {g : Game} {count : Nat}

/-- If the game has started, every player is in a phase. -/
def Placed (s : Session) : Prop := s.started = true → s.table.Placed

/-- A session that is created has not started, so nobody has to be in a phase. -/
theorem placed_create {names : List String} {config : Config}
    (h : create g names config = .ok s) : s.Placed := by
  simp only [create, bind_ok, pure_ok] at h
  obtain ⟨-, -, rfl⟩ := h
  exact fun hstarted => absurd hstarted Bool.false_ne_true

/-- Dealing puts everyone into the start phase. -/
theorem placed_deal (s : Session) : s.deal.table.Placed := by
  intro p hp
  obtain ⟨q, -, rfl⟩ := List.mem_map.1 hp
  rfl

/-- Starting puts every player into a phase. -/
theorem InPlay.placed_start (hg : g.WellFormed) (h : s.InPlay g count) :
    s.start.2.table.Placed := by
  have hphases := (h.dealt hg).inPhases
  rw [judge_dealt] at hphases
  exact (start_keeps (h.closed hg) s.judge.preserves_placed ⟨hphases, placed_deal _⟩).2

/-- Whatever a session is asked, its players stay in phases. -/
theorem InPlay.placed_answer (hg : g.WellFormed) (h : s.InPlay g count) (hs : s.Placed)
    (request : Request) : (s.answer request).Placed := by
  have hclosed := h.closed hg
  have hj := s.judge.preserves_placed
  have ht : s.started = true →
      s.table.InPhases s.judge.graph.phases.length ∧ s.table.Placed := fun hstarted =>
    ⟨h.inPhases, hs hstarted⟩
  cases request with
  | start => exact fun _ => h.placed_start hg
  | reset => nofun
  | allowed =>
    intro hstarted
    have hkept := ht ((s.started_allowedFor _).symm.trans hstarted)
    exact (allowedFor_keeps hclosed hj hkept _).2
  | allowedFor seat =>
    intro hstarted
    have hkept := ht ((s.started_allowedFor seat).symm.trans hstarted)
    exact (allowedFor_keeps hclosed hj hkept seat).2
  | checkCondition name =>
    intro hstarted
    have hkept := ht ((s.started_checkCondition name).symm.trans hstarted)
    exact (checkCondition_keeps hclosed hj hkept name).2
  | perform offer values =>
    intro hstarted
    have hkept := ht ((s.started_perform offer values).symm.trans hstarted)
    exact (perform_keeps hclosed hj hkept offer values).2

/-- Whatever is requested, in a game that has started every player is in a phase. -/
theorem InPlay.placed_answerAll (hg : g.WellFormed) (h : s.InPlay g count) (hs : s.Placed)
    (requests : List Request) : (s.answerAll requests).Placed := by
  induction requests generalizing s with
  | nil => exact hs
  | cons request requests ih => exact ih (h.answer hg request) (h.placed_answer hg hs request)

/-- The player whose turn it is is in a phase. -/
theorem InPlay.isSome_position (h : s.InPlay g count) (hs : s.Placed)
    (hstarted : s.started = true) : s.table.position.phase.isSome = true :=
  (hs hstarted).isSome_position h.table.current

end Session

end HouseRules
