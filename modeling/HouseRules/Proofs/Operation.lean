import HouseRules.Proofs.Board.Cards
import HouseRules.Proofs.Table

/-!
# What operations keep

A call that passes its check names only piles, players and phases of the game
(`Operation.prepare_ok`). What matters for an operation is where it puts cards and which phase it
enters (`Operation.InGame`): if these are of the game, the operation keeps the table sound and loses
no card. `Operation.sound_dispatch` and `Operation.bag_dispatch` say so of calls as a whole, which
is all that is needed of them further on.

A call fails only over its arguments (`RuntimeError.IsArgument`). It never fails because a component
is missing (`RuntimeError.IsUnknown`), for verbs look nothing up in the graph.
-/

namespace HouseRules

/-- The error is about a component that is not there. -/
def RuntimeError.IsUnknown : RuntimeError → Prop
  | .unknownComponent _ _ => True
  | _ => False

/-- The error is about the arguments of a call: their number, their kinds, or what they stand
for. -/
def RuntimeError.IsArgument : RuntimeError → Prop
  | .wrongArgumentCount _ _ _ | .wrongArgumentKind _ _ _ _ | .unusableArgument _ _ _ => True
  | _ => False

/-- An error about an argument is not about an unknown component. -/
theorem RuntimeError.IsArgument.not_isUnknown {e : RuntimeError} (h : e.IsArgument) :
    ¬ e.IsUnknown := by
  cases e <;> first | exact h.elim | exact id

/-- The verb that asks whether cards agree in a respect. -/
def Likeness.verb : Likeness → Verb
  | .attributes => .alike
  | .face => .sameFace
  | .group => .sameGroup
  | .rank => .sameRank

/-! ## Reading arguments -/

namespace Call

variable {c : Call} {i : Nat}

/-- Reading an argument gives just what its value is viewed as. -/
theorem read_ok {α : Type} {expected : Kind} {view : Value → Option α} {a : α} :
    c.read i expected view = .ok a ↔ ∃ v, c.values[i]? = some v ∧ view v = some a := by
  simp only [read, argument, bind_ok, orFail_eq_ok]

/-- An argument is read as a pile just when it is one. -/
theorem pile_ok {id : PileId} : c.pile i = .ok id ↔ c.values[i]? = some (.pile id) := by
  rw [pile, read_ok]
  constructor
  · rintro ⟨v, hv, h⟩
    split at h
    · cases h
      exact hv
    · cases h
  · exact fun hv => ⟨_, hv, rfl⟩

/-- An argument is read as a phase just when it is one. -/
theorem phase_ok {id : PhaseId} : c.phase i = .ok id ↔ c.values[i]? = some (.phase id) := by
  rw [phase, read_ok]
  constructor
  · rintro ⟨v, hv, h⟩
    split at h
    · cases h
      exact hv
    · cases h
  · exact fun hv => ⟨_, hv, rfl⟩

/-- Reading an argument fails only over this argument. -/
theorem read_failsOnly {α : Type} {expected : Kind} {view : Value → Option α} :
    FailsOnly RuntimeError.IsArgument (c.read i expected view) :=
  .bind (.orFail trivial) fun _ _ => .orFail trivial

/-- Reading the arguments of a call fails only over one of them. -/
theorem operation_failsOnly (c : Call) : FailsOnly RuntimeError.IsArgument c.operation := by
  unfold operation
  split <;>
    repeat first
      | exact .pure
      | refine .bind read_failsOnly fun _ _ => ?_

end Call

/-! ## Checked calls -/

namespace Operation

variable {c : Call} {t : Table} {phases : Nat} {op : Operation}

/-- A call passes its check when it has enough arguments, all of the game and of the right kinds. -/
theorem prepare_ok :
    prepare c t phases = .ok op ↔
      c.verb.signature.arity ≤ c.values.length ∧ (∀ v ∈ c.values, v.belongs t phases = true) ∧
        c.operation = .ok op := by
  simp only [prepare, guard_ok, Nat.not_lt]
  refine and_congr_right fun _ => ?_
  split
  next v hv =>
    have hnot : ¬ v.belongs t phases = true := by simpa using List.find?_some hv
    exact ⟨nofun, fun h => absurd (h.1 v (List.mem_of_find?_eq_some hv)) hnot⟩
  next hnone =>
    have hall : ∀ v ∈ c.values, v.belongs t phases = true := by
      simpa using List.find?_eq_none.1 hnone
    exact ⟨fun h => ⟨hall, h⟩, And.right⟩

/-- Checking a call fails only over one of its arguments. -/
theorem prepare_failsOnly : FailsOnly RuntimeError.IsArgument (prepare c t phases) := by
  unfold prepare
  dsimp only
  split
  · exact .error trivial
  · split
    · exact .error trivial
    · exact c.operation_failsOnly

/-- The piles that an operation puts cards on and the phase that it enters are of the game. -/
def InGame (t : Table) (phases : Nat) : Operation → Prop
  | .enterPhase phase => phase.index < phases
  | .transfer _ target _ | .transferTop _ target | .transferAll _ target =>
    target.index < t.board.size
  | _ => True

/-- What a checked call names is of the game. -/
theorem inGame_of_prepare (h : prepare c t phases = .ok op) : op.InGame t phases := by
  obtain ⟨-, hbelongs, hop⟩ := prepare_ok.1 h
  have hpile : ∀ {i id}, c.pile i = .ok id → id.index < t.board.size := fun hid =>
    of_decide_eq_true (hbelongs _ (List.mem_of_getElem? (Call.pile_ok.1 hid)))
  have hphase : ∀ {i id}, c.phase i = .ok id → id.index < phases := fun hid =>
    of_decide_eq_true (hbelongs _ (List.mem_of_getElem? (Call.phase_ok.1 hid)))
  simp only [Call.operation] at hop
  split at hop <;> simp only [bind_ok, pure_ok] at hop <;> grind [InGame]

/-! ## Effects -/

/-- A move that keeps the cards of the board keeps those of the table, done or refused. -/
theorem bag_moved {b : Option Board} (h : ∀ b', b = some b' → b'.bag = t.board.bag) :
    (moved t b).2.board.bag = t.board.bag := by
  cases b with
  | none => rfl
  | some b' => exact h b' rfl

/-- Shuffling piles loses no card. -/
theorem bag_shuffleAll (t : Table) (ids : List PileId) :
    (shuffleAll t ids).board.bag = t.board.bag := by
  unfold shuffleAll
  induction ids generalizing t with
  | nil => rfl
  | cons id ids ih =>
    rw [List.foldl_cons, ih]
    exact Board.bag_shuffle t.board id t.stream

/-- No operation loses a card. -/
theorem bag_run (ranking : Ranking) (h : op.InGame t phases) :
    (op.run ranking t).2.board.bag = t.board.bag := by
  cases op with
  | transfer source target cards => exact bag_moved fun _ => Board.bag_transfer h
  | transferTop source target => exact bag_moved fun _ => Board.bag_transferTop h
  | transferAll source target => exact Board.bag_transferAll h
  | exchange a b cardA cardB => exact bag_moved fun _ => Board.bag_exchange
  | remove pile card => exact bag_moved fun _ => Board.bag_remove
  | removeAll piles => exact Board.bag_foldl_removeAll t.board piles
  | shuffle piles => exact bag_shuffleAll t piles
  | sort pile => exact Board.bag_modify_of_eq fun p _ => p.bag_sort _
  | endTurn =>
    obtain ⟨seat, turn, heq, -⟩ := t.advanceTurn_eq
    rw [run, heq]
  | _ => rfl

/-- Shuffling piles changes neither the players nor the turn. -/
theorem shuffleAll_players (t : Table) (ids : List PileId) :
    (shuffleAll t ids).players = t.players ∧ (shuffleAll t ids).current = t.current := by
  unfold shuffleAll
  induction ids generalizing t with
  | nil => exact ⟨rfl, rfl⟩
  | cons id ids ih => exact ih _

/-- A move changes neither the players nor the turn, done or refused. -/
theorem moved_players (t : Table) (b : Option Board) :
    (moved t b).2.players = t.players ∧ (moved t b).2.current = t.current := by
  cases b <;> exact ⟨rfl, rfl⟩

/-- No operation puts a player into a phase that is not there. -/
theorem inPhases_run (ranking : Ranking) (ht : t.InPhases phases) (h : op.InGame t phases) :
    (op.run ranking t).2.InPhases phases := by
  cases op with
  | endTurn =>
    obtain ⟨seat, turn, heq, -⟩ := t.advanceTurn_eq
    rw [run, heq]
    exact ht
  | enterPhase phase =>
    refine ht.modifyPlayer fun p id hid => .inr ?_
    cases hid
    exact h
  | setStatus seat status => exact ht.modifyPlayer fun p id hid => .inl hid
  | shuffle piles => exact ht.congr (shuffleAll_players t piles).1
  | transfer | transferTop | exchange | remove => exact ht.congr (moved_players t _).1
  | _ => exact ht

/-- Every operation leaves all players at the table and the turn with one of them. -/
theorem current_run_lt (ranking : Ranking) (op : Operation) (ht : t.current.index < t.count)
    (hcount : t.count ≤ 255) :
    (op.run ranking t).2.count = t.count ∧ (op.run ranking t).2.current.index < t.count := by
  cases op with
  | endTurn =>
    obtain ⟨seat, turn, heq, hseat⟩ := t.advanceTurn_eq
    rw [run, heq]
    refine ⟨rfl, ?_⟩
    rcases hseat with rfl | rfl
    · exact ht
    · exact t.pass_lt t.count ht hcount
  | enterPhase | setStatus => exact ⟨t.count_modifyPlayer .., ht⟩
  | shuffle piles =>
    obtain ⟨hplayers, hcurrent⟩ := shuffleAll_players t piles
    exact ⟨congrArg List.length hplayers, hcurrent ▸ ht⟩
  | transfer | transferTop | exchange | remove =>
    obtain ⟨hplayers, hcurrent⟩ := moved_players t _
    exact ⟨congrArg List.length hplayers, hcurrent ▸ ht⟩
  | _ => exact ⟨rfl, ht⟩

variable {l : Layout}

/-- Every operation leaves a table set. -/
theorem setFor_run (ranking : Ranking) (op : Operation) (ht : t.SetFor l) :
    (op.run ranking t).2.SetFor l := by
  obtain ⟨hcount, hcurrent⟩ := current_run_lt ranking op ht.current ht.numbered
  refine ⟨?_, hcount.symm ▸ hcurrent, hcount.symm ▸ ht.numbered⟩
  rw [clear_run, hcount]
  exact ht.frame

/-- An operation that names only what is of the game keeps the table sound. -/
theorem sound_run (ranking : Ranking) {count : Nat} (ht : t.Sound l count phases)
    (h : op.InGame t phases) : (op.run ranking t).2.Sound l count phases :=
  ⟨setFor_run ranking op ht.toSetFor,
    (current_run_lt ranking op ht.current ht.numbered).1.trans ht.seated,
    inPhases_run ranking ht.inPhases h⟩

/-! ## Calls -/

variable {ranking : Ranking} {outcome : Outcome} {t' : Table}

/-- A call succeeds exactly if it is checked, and then with what its operation does. -/
theorem dispatch_ok :
    dispatch c ranking phases t = .ok (outcome, t') ↔
      ∃ op, prepare c t phases = .ok op ∧ op.run ranking t = (outcome, t') := by
  simp only [dispatch, bind_ok, pure_ok]

/-- A call keeps the table sound. -/
theorem sound_dispatch {count : Nat} (ht : t.Sound l count phases)
    (h : dispatch c ranking phases t = .ok (outcome, t')) : t'.Sound l count phases := by
  obtain ⟨op, hprepare, hrun⟩ := dispatch_ok.1 h
  have := sound_run ranking ht (inGame_of_prepare hprepare)
  rwa [hrun] at this

/-- A call puts no player into a phase that is not there. -/
theorem inPhases_dispatch (ht : t.InPhases phases)
    (h : dispatch c ranking phases t = .ok (outcome, t')) : t'.InPhases phases := by
  obtain ⟨op, hprepare, hrun⟩ := dispatch_ok.1 h
  have := inPhases_run ranking ht (inGame_of_prepare hprepare)
  rwa [hrun] at this

/-- A call loses no card. -/
theorem bag_dispatch (h : dispatch c ranking phases t = .ok (outcome, t')) :
    t'.board.bag = t.board.bag := by
  obtain ⟨op, hprepare, hrun⟩ := dispatch_ok.1 h
  have := bag_run ranking (inGame_of_prepare hprepare)
  rwa [hrun] at this

/-- A call fails only over its arguments. -/
theorem dispatch_failsOnly : FailsOnly RuntimeError.IsArgument (dispatch c ranking phases t) :=
  .bind prepare_failsOnly fun _ _ => .pure

end Operation

end HouseRules
