import HouseRules.Proofs.Board.Moves
import HouseRules.Proofs.CrazyEights.Compiled
import HouseRules.Proofs.Operation
import HouseRules.Proofs.Verdict
import HouseRules.Session

/-!
# The table of Crazy Eights

Where the piles of the game are, and what the end of a turn does while everybody is playing
(`CrazyEights.Playing`): the turn goes on clockwise (`Playing.exists_advanceTurn`), once and not
twice. The phase of the game ends with passing, so settling passes a turn that has not been passed
(`Playing.settle_of_stay`) and leaves one alone that has (`Playing.settle_of_moved`).
-/

namespace HouseRules.CrazyEights

/-- What applies the components of the game, where an action may be repeated `m` times. -/
def judge (m : Nat) : Judge := ⟨graph, compiled.ranking, m⟩

/-! ## The piles -/

/-- The number of the hand of a seat. -/
def handPile (seat : Seat) : PileId := ⟨seat.index⟩

/-- The number of the draw pile at a table for `n` players. -/
def drawPile (n : Nat) : PileId := ⟨n⟩

/-- The number of the discard pile at a table for `n` players. -/
def discardPile (n : Nat) : PileId := ⟨n + 1⟩

/-- Hands of different seats are different piles. -/
theorem handPile_injective {a b : Seat} (h : handPile a = handPile b) : a = b :=
  congrArg Seat.mk (congrArg PileId.index h)

/-- No hand is the draw pile. -/
theorem handPile_ne_drawPile {n : Nat} {seat : Seat} (h : seat.index < n) :
    handPile seat ≠ drawPile n := fun heq => Nat.ne_of_lt h (congrArg PileId.index heq)

/-- No hand is the discard pile. -/
theorem handPile_ne_discardPile {n : Nat} {seat : Seat} (h : seat.index < n) :
    handPile seat ≠ discardPile n := fun heq =>
  Nat.ne_of_lt (Nat.lt_succ_of_lt h) (congrArg PileId.index heq)

/-- The discard pile is not the draw pile. -/
theorem discardPile_ne_drawPile (n : Nat) : discardPile n ≠ drawPile n := fun heq =>
  Nat.succ_ne_self n (congrArg PileId.index heq)

/-- The piles that a player finds on the empty board. -/
theorem find_ofLayout : ∀ n ≤ 5, ∀ i < n,
    (Board.ofLayout layout n).find? ⟨0⟩ ⟨i⟩ = some (handPile ⟨i⟩) ∧
      (Board.ofLayout layout n).find? ⟨1⟩ ⟨i⟩ = some (drawPile n) ∧
        (Board.ofLayout layout n).find? ⟨2⟩ ⟨i⟩ = some (discardPile n) := by
  decide

/-- Where cards are put on them, and which may be taken. -/
theorem policy_ofLayout : ∀ n ≤ 5, ∀ i < n,
    ((Board.ofLayout layout n).pile? (handPile ⟨i⟩)).map (·.policy) =
        some { owner := .player, visibility := .owner, tiling := .spread } ∧
      ((Board.ofLayout layout n).pile? (drawPile n)).map (·.policy) =
        some { visibility := .none, removal := .top } ∧
      ((Board.ofLayout layout n).pile? (discardPile n)).map (·.policy) =
        some { visible := some 1, removal := .none } := by
  decide

section Piles

variable {b : Board} {n : Nat} {seat : Seat} (hb : b.clear = .ofLayout layout n) (hn : n ≤ 5)
  (hseat : seat.index < n)

include hb hn hseat

/-- A player finds the hand of the own seat under the first declaration. -/
theorem find_hand : b.find? ⟨0⟩ seat = some (handPile seat) := by
  rw [← Board.find?_clear, hb]
  exact (find_ofLayout n hn seat.index hseat).1

/-- Every player finds the draw pile under the second declaration. -/
theorem find_draw : b.find? ⟨1⟩ seat = some (drawPile n) := by
  rw [← Board.find?_clear, hb]
  exact (find_ofLayout n hn seat.index hseat).2.1

/-- Every player finds the discard pile under the third declaration. -/
theorem find_discard : b.find? ⟨2⟩ seat = some (discardPile n) := by
  rw [← Board.find?_clear, hb]
  exact (find_ofLayout n hn seat.index hseat).2.2

/-- Any card may be taken from a hand, and cards are put on top. -/
theorem exists_hand : ∃ p, b.pile? (handPile seat) = some p ∧ p.policy.placement = .top ∧
    p.policy.removal = .any := by
  obtain ⟨frame, hframe, hpolicy⟩ :=
    Option.map_eq_some_iff.1 (policy_ofLayout n hn seat.index hseat).1
  obtain ⟨p, hp, heq⟩ := Board.exists_pile?_of_clear (hb ▸ hframe)
  exact ⟨p, hp, by rw [heq, hpolicy], by rw [heq, hpolicy]⟩

/-- The topmost cards may be taken from the draw pile. -/
theorem exists_draw : ∃ p, b.pile? (drawPile n) = some p ∧ p.policy.removal = .top := by
  obtain ⟨frame, hframe, hpolicy⟩ :=
    Option.map_eq_some_iff.1 (policy_ofLayout n hn seat.index hseat).2.1
  obtain ⟨p, hp, heq⟩ := Board.exists_pile?_of_clear (hb ▸ hframe)
  exact ⟨p, hp, by rw [heq, hpolicy]⟩

/-- Cards are put on top of the discard pile. -/
theorem exists_discard : ∃ p, b.pile? (discardPile n) = some p ∧ p.policy.placement = .top := by
  obtain ⟨frame, hframe, hpolicy⟩ :=
    Option.map_eq_some_iff.1 (policy_ofLayout n hn seat.index hseat).2.2
  obtain ⟨p, hp, heq⟩ := Board.exists_pile?_of_clear (hb ▸ hframe)
  exact ⟨p, hp, by rw [heq, hpolicy]⟩

end Piles

/-! ## The table -/

/-- The seat after a seat, clockwise. -/
def next (n : Nat) (seat : Seat) : Seat := ⟨(seat.index + 1) % n⟩

/-- With two players or more the turn never goes on to the same seat. -/
theorem next_ne {n : Nat} {seat : Seat} (hn : 2 ≤ n) (hseat : seat.index < n) :
    next n seat ≠ seat := by
  intro heq
  have hindex : (seat.index + 1) % n = seat.index := congrArg Seat.index heq
  rcases Nat.lt_or_ge (seat.index + 1) n with hlt | hge
  · rw [Nat.mod_eq_of_lt hlt] at hindex
    omega
  · rw [show seat.index + 1 = n by omega, Nat.mod_self] at hindex
    omega

/-- A table at which two to five players are playing, all of them in the one phase there is. -/
structure Playing (t : Table) (n : Nat) : Prop where
  sound : t.Sound layout n 1
  atLeast : 2 ≤ n
  atMost : n ≤ 5
  players : ∀ p ∈ t.players, p.status = .playing ∧ p.phase = some ⟨0⟩
  direction : t.direction = .clockwise

/-- The table once the player whose turn it is has won. -/
def win (t : Table) : Table := t.modifyPlayer t.current fun p => { p with status := .won }

/-- Passing runs no more than the end of the turn. -/
theorem run_pass {m : Nat} (t : Table) (supplied : List Value) :
    (judge m).run (.action ⟨2⟩) supplied t = (.ok true, t.advanceTurn) := rfl

variable {t : Table} {n m : Nat}

namespace Playing

/-- The turn is at a seat in play. -/
theorem current_lt (h : Playing t n) : t.current.index < n := h.sound.seated ▸ h.sound.current

/-- Cards apart, the board is the one of the layout. -/
theorem frame (h : Playing t n) : t.board.clear = .ofLayout layout n :=
  h.sound.seated ▸ h.sound.frame

/-- The rules mean by `hand` the hand of the player whose turn it is. -/
theorem select_hand (h : Playing t n) : t.select? hand = some (handPile t.current) :=
  find_hand h.frame h.atMost h.current_lt

/-- The rules mean by `draw` the draw pile. -/
theorem select_draw (h : Playing t n) : t.select? draw = some (drawPile n) :=
  find_draw h.frame h.atMost h.current_lt

/-- The rules mean by `discard` the discard pile. -/
theorem select_discard (h : Playing t n) : t.select? discard = some (discardPile n) :=
  find_discard h.frame h.atMost h.current_lt

/-- The game is not over. -/
theorem isOver_eq (h : Playing t n) : t.isOver = false := by
  rw [Table.isOver, Table.verdict?_of_playing (fun p hp => (h.players p hp).1)
    (h.sound.seated.symm ▸ h.atLeast)]
  rfl

/-- At every seat is a player who is playing, in the one phase of the game. -/
theorem exists_player (h : Playing t n) {seat : Seat} (hseat : seat.index < n) :
    ∃ p, t.player? seat = some p ∧ p.status = .playing ∧ p.phase = some ⟨0⟩ := by
  have hlt : seat.index < t.players.length := Nat.lt_of_lt_of_eq hseat h.sound.seated.symm
  exact ⟨t.players[seat.index], List.getElem?_eq_getElem hlt, h.players _ (List.getElem_mem hlt)⟩

/-- The player whose turn it is is in the one phase of the game. -/
theorem phaseOf?_current (h : Playing t n) : t.phaseOf? t.current = some ⟨0⟩ := by
  obtain ⟨p, hp, -, hphase⟩ := h.exists_player h.current_lt
  rw [Table.phaseOf?, hp]
  exact hphase

/-- The position of the table is the seat whose turn it is, in the one phase of the game. -/
theorem position_eq (h : Playing t n) : t.position = ⟨t.current, some ⟨0⟩⟩ := by
  rw [Table.position, h.phaseOf?_current]

/-- Cards may be moved. -/
theorem withBoard (h : Playing t n) {b : Board} (hb : b.clear = t.board.clear) :
    Playing { t with board := b } n :=
  ⟨⟨⟨hb.trans h.sound.frame, h.sound.current, h.sound.numbered⟩, h.sound.seated, h.sound.inPhases⟩,
    h.atLeast, h.atMost, h.players, h.direction⟩

/-- Passing the turn makes the next player clockwise current. -/
theorem exists_advanceTurn (h : Playing t n) :
    ∃ turn, t.advanceTurn = { t with current := next n t.current, turn } := by
  have hn : 0 < n := Nat.zero_lt_of_lt h.current_lt
  have hstep : t.direction.step t.current t.count = next n t.current := by
    have hlt : (t.current.index + 1) % n < n := Nat.mod_lt _ hn
    have hmax : max n 1 = n := Nat.max_eq_left hn
    have hbyte : (t.current.index + 1) % n < 256 := by
      have := h.atMost
      omega
    rw [h.direction, h.sound.seated, Direction.step, hmax]
    exact congrArg Seat.mk (Nat.mod_eq_of_lt hbyte)
  obtain ⟨p, hp, hplaying, -⟩ := h.exists_player (show (next n t.current).index < n from
    Nat.mod_lt _ hn)
  have hactive : t.isActive (next n t.current) = true :=
    Table.isActive_iff.2 ⟨p, hp, by rw [Player.isActive, hplaying]; rfl⟩
  rw [← hstep] at hactive ⊢
  exact Table.exists_advanceTurn hactive (h.sound.seated.symm ▸ hn)

/-- When the turn goes on everybody is still playing. -/
theorem advanceTurn (h : Playing t n) : Playing t.advanceTurn n := by
  have hsound : t.advanceTurn.Sound layout n 1 :=
    Operation.sound_run .flat h.sound (show Operation.InGame t 1 .endTurn from trivial)
  obtain ⟨turn, heq⟩ := h.exists_advanceTurn
  rw [heq] at hsound ⊢
  exact ⟨hsound, h.atLeast, h.atMost, h.players, h.direction⟩

/-- The turn goes on to the seat after the current one. -/
theorem current_advanceTurn (h : Playing t n) : t.advanceTurn.current = next n t.current := by
  obtain ⟨turn, heq⟩ := h.exists_advanceTurn
  rw [heq]

/-- When the turn goes on no card moves. -/
theorem board_advanceTurn (h : Playing t n) : t.advanceTurn.board = t.board := by
  obtain ⟨turn, heq⟩ := h.exists_advanceTurn
  rw [heq]

/-! ## Winning -/

/-- The players once the one whose turn it is has won. -/
theorem player?_win (h : Playing t n) {seat : Seat} {p : Player}
    (hp : (win t).player? seat = some p) :
    (p.status = .won ↔ seat = t.current) ∧ (p.status ≠ .won → p.status = .playing) := by
  rw [win, Table.player?, Table.modifyPlayer, List.getElem?_modify] at hp
  obtain ⟨q, hq, rfl⟩ := Option.map_eq_some_iff.1 hp
  have hplaying := (h.players q (List.mem_of_getElem? hq)).1
  by_cases hseat : seat = t.current
  · subst hseat
    simp
  · have hindex : t.current.index ≠ seat.index := fun heq =>
      hseat (congrArg Seat.mk heq.symm)
    simp [hindex, hplaying, hseat]

/-- The game is over, and that player has won it. -/
theorem verdict?_win (h : Playing t n) : (win t).verdict? = some (.winner t.current) := by
  refine Table.verdict?_of_won fun seat => ⟨?_, ?_⟩
  · rintro ⟨p, hp, hwon⟩
    exact (h.player?_win hp).1.1 hwon
  · rintro rfl
    have hlt : t.current.index < (win t).players.length := by
      rw [win, Table.modifyPlayer, List.length_modify]
      exact h.sound.current
    have hp : (win t).player? t.current = some (win t).players[t.current.index] :=
      List.getElem?_eq_getElem hlt
    exact ⟨_, hp, (h.player?_win hp).1.2 rfl⟩

/-! ## Settling -/

/-- Nothing happens when the phase is entered. -/
theorem enterPhase_eq (h : Playing t n) (limit again : Nat) :
    (judge m).enterPhase limit again t = (.ok (), t) := by
  unfold Judge.enterPhase
  simp only [h.isOver_eq, h.position_eq]
  exact if_pos h.position_eq

/-- A turn that has been passed is not passed again. -/
theorem settle_of_moved (h : Playing t n) {before : Position} (hbefore : t.position ≠ before)
    (limit : Nat) : (judge m).settle limit before t = (.ok (), t) := by
  have hclose : (judge m).closeAction before t = (.ok (), t) := by
    unfold Judge.closeAction
    split
    · rw [if_neg hbefore]
    · rfl
  rw [Judge.settle, h.isOver_eq, hclose]
  simp only [Bool.false_eq_true, if_false, Answer.andThen_ok, if_neg hbefore]
  exact h.enterPhase_eq limit _

/-- When the turn goes on the position of the table is another, so settling can tell that it did. -/
theorem position_advanceTurn_ne (h : Playing t n) :
    t.advanceTurn.position ≠ t.position := fun heq =>
  next_ne h.atLeast h.current_lt (h.current_advanceTurn.symm.trans (congrArg Position.seat heq))

/-- A turn that has not been passed is passed. -/
theorem settle_of_stay (h : Playing t n) (limit : Nat) :
    (judge m).settle limit t.position t = (.ok (), t.advanceTurn) := by
  have hclose : (judge m).closeAction t.position t = (.ok (), t.advanceTurn) := by
    have hfinish : (judge m).runAll [.action ⟨2⟩] t = (.ok (), t.advanceTurn) := by
      rw [Judge.runAll, h.isOver_eq, run_pass]
      rfl
    unfold Judge.closeAction
    rw [h.position_eq]
    exact (if_pos rfl).trans hfinish
  rw [Judge.settle, h.isOver_eq, hclose]
  simp only [Bool.false_eq_true, if_false, Answer.andThen_ok, if_neg h.position_advanceTurn_ne]
  exact h.advanceTurn.enterPhase_eq limit _

end Playing

end HouseRules.CrazyEights
