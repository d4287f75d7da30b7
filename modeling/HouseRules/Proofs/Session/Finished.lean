import HouseRules.Proofs.Session.Log
import HouseRules.Proofs.Session.Settling

/-!
# Games that are over

A game can come to its end anywhere: in an action or in a response to it, in a closing action, in an
opening action, or half way through a row of phases. Whoever goes on then comes to nothing: nothing
is on offer, nothing that is performed takes effect, and whatever is asked (`Inquiry.GoesOn`), the
session stays as it is. Only a start or a reset begins anew, and only a condition evaluated by its
name may still call a verb.

That no opening or closing action is begun once there is a verdict is said of the log: it names the
table at which each thing was begun, and it accounts for all that a start or a move does
(`Session.Follows`). Both together are `Session.finished_stays_finished`.

Reference: `Engine.is_over`, `GameResult.from_players` (specification E4).
-/

namespace HouseRules

/-- An inquiry goes on with a game: it neither begins anew nor evaluates a condition by its name. -/
def Inquiry.GoesOn {α : Type} : Inquiry α → Prop
  | .start | .reset | .checkCondition _ => False
  | _ => True

namespace Session

variable {s : Session}

/-! ## Nothing happens any more -/

section

variable (hover : s.table.isOver = true)

include hover

/-- Once the game is over nobody is allowed anything, and asking changes nothing. -/
theorem allowedFor_of_isOver (seat : Seat) : s.allowedFor seat = (.ok [], s) := by
  rw [allowedFor, hover, Bool.or_true, if_pos rfl]

/-- Once the game is over nothing that is performed takes effect or changes anything. -/
theorem perform_of_isOver (offer : Offer) (values : List Value) :
    s.perform offer values = (.ok false, s) ∨ ∃ e, s.perform offer values = (.error e, s) := by
  unfold perform
  cases s.entryOf offer with
  | error e => exact .inr ⟨e, rfl⟩
  | ok entry => exact .inl (if_pos hover)

/-- Once the game is over no inquiry that goes on with it changes anything. -/
theorem reply_of_isOver {α : Type} {inquiry : Inquiry α} (h : inquiry.GoesOn) :
    (s.reply inquiry).2 = s := by
  cases inquiry with
  | start | reset | checkCondition => exact h.elim
  | allowed => exact congrArg Prod.snd (allowedFor_of_isOver hover s.table.current)
  | allowedFor seat => exact congrArg Prod.snd (allowedFor_of_isOver hover seat)
  | perform offer values =>
    rcases perform_of_isOver hover offer values with h | ⟨e, h⟩ <;> exact congrArg Prod.snd h
  | _ => rfl

/-- Once the game is over inquiries in a row that go on with it change nothing. -/
theorem askAll_of_isOver {later : List (Σ α, Inquiry α)}
    (h : ∀ inquiry ∈ later, inquiry.2.GoesOn) : s.askAll later = s := by
  induction later with
  | nil => rfl
  | cons inquiry later ih =>
    obtain ⟨hfirst, hlater⟩ := List.forall_mem_cons.1 h
    have hstays : (s.reply inquiry.2).2 = s := reply_of_isOver hover hfirst
    rw [askAll, List.foldl_cons, hstays]
    exact ih hlater

end

/-- **A finished game stays finished.** Once there is a verdict on a game, however it was come to,
nothing is on offer to anybody, whatever is performed has no effect or is refused, and whatever else
is asked, the session stays as it is, and so does the verdict. And at all times, a start and a move
begin their opening and closing actions, and the action itself, only where there is no verdict: so
it says in the log, which leads from the table that they find to the one that they leave. -/
theorem finished_stays_finished {rules deck board : Document} {brief : Option Document} {g : Game}
    {names : List String} {config : Config} {s₀ : Session}
    (hgame : Game.ofDocuments rules deck board brief = .ok g)
    (hs₀ : create g names config = .ok s₀) (asked : List (Σ α, Inquiry α)) :
    let s := s₀.askAll asked
    (∀ verdict, s.table.verdict? = some verdict →
      ∀ later : List (Σ α, Inquiry α), (∀ inquiry ∈ later, inquiry.2.GoesOn) →
        let s' := s.askAll later
        s' = s ∧ s'.table.verdict? = some verdict ∧ s'.allowed = (.ok [], s) ∧
          (∀ seat, s'.allowedFor seat = (.ok [], s)) ∧
          ∀ offer values, s'.perform offer values = (.ok false, s) ∨
            ∃ e, s'.perform offer values = (.error e, s)) ∧
      ∃ log, s₀.askAllLogged asked .fresh = some (s, log) ∧ log.guard = .empty ∧
        s.Follows s.dealt.table (s.replyLogged .start) s.start ∧
        ∀ offer values,
          s.Follows s.table (s.replyLogged (.perform offer values)) (s.perform offer values) := by
  intro s
  refine ⟨fun verdict hverdict later hlater => ?_, ?_⟩
  · have hover : s.table.isOver = true := by
      rw [Table.isOver, hverdict]
      rfl
    dsimp only
    rw [askAll_of_isOver hover hlater]
    exact ⟨rfl, hverdict, allowedFor_of_isOver hover _, allowedFor_of_isOver hover,
      perform_of_isOver hover⟩
  · have hacyclic := not_cyclic_of_create hgame hs₀
    obtain ⟨begun, hasked, -⟩ := askAllLogged_eq hacyclic asked []
    have hacyclic' : ¬ s.game.graph.Cyclic := by rwa [(s₀.setup_askAll asked).1]
    exact ⟨_, hasked, rfl, startLogged_follows hacyclic', performLogged_follows hacyclic'⟩

/-! ## One of two players wins -/

/-- The rules of a game that whoever takes a turn may win, and passes on otherwise. -/
def claimingRules : Document where
  kind := .rules
  name := "claiming"
  lines := [
    "players 2",
    "deal", "common-piles draw all", "deal-end",
    "action turn-round", "reverse-direction",
    "action claim", "player-win player.current",
    "action pass", "end-turn", "end-action",
    "phase turn", "do turn-round", "allow", "allow claim", "end-allow", "do pass", "end-phase"]

/-- Two players sit down at the game of claiming. -/
def claiming : Compiled (Game × Session) := do
  let g ← Game.ofDocuments claimingRules drawingDeck Graph.drawingBoard none
  let s ← create g ["ann", "bob"] { seed := 1 }
  return (g, s)

/-- They begin, and the first one wins at once. The turn has not been passed on, and nothing that
is asked then changes anything. -/
theorem claiming_stays_finished :
    ∃ g s₀, Game.ofDocuments claimingRules drawingDeck Graph.drawingBoard none = .ok g ∧
      create g ["ann", "bob"] { seed := 1 } = .ok s₀ ∧
      let s := s₀.askAll [⟨_, .start⟩, ⟨_, .perform ⟨⟨0⟩, 0, .action ⟨1⟩⟩ []⟩]
      s.table.verdict? = some (.winner .first) ∧ s.table.current = .first ∧
        s.askAll [⟨_, .allowed⟩, ⟨_, .perform ⟨⟨0⟩, 0, .action ⟨1⟩⟩ []⟩, ⟨_, .view ⟨1⟩⟩] = s ∧
        s.Follows s.dealt.table (s.replyLogged .start) s.start := by
  have hok : claiming.isOk = true := by decide +kernel
  have hwon : claiming.toOption.any (fun (_, s₀) =>
      let s := s₀.askAll [⟨_, .start⟩, ⟨_, .perform ⟨⟨0⟩, 0, .action ⟨1⟩⟩ []⟩]
      s.table.verdict? = some (.winner .first) ∧ s.table.current = .first) = true := by
    decide +kernel
  obtain ⟨⟨g, s₀⟩, h⟩ := Succeeds.of_isOk hok
  rw [h] at hwon
  obtain ⟨hverdict, hcurrent⟩ := of_decide_eq_true hwon
  simp only [claiming, bind_ok, pure_ok] at h
  obtain ⟨_, hgame, _, hs₀, heq⟩ := h
  cases heq
  obtain ⟨hfinished, -, -, -, hstart, -⟩ := finished_stays_finished hgame hs₀
    [⟨_, .start⟩, ⟨_, .perform ⟨⟨0⟩, 0, .action ⟨1⟩⟩ []⟩]
  have hgoesOn : ∀ inquiry ∈ ([⟨_, .allowed⟩, ⟨_, .perform ⟨⟨0⟩, 0, .action ⟨1⟩⟩ []⟩,
      ⟨_, .view ⟨1⟩⟩] : List (Σ α, Inquiry α)), inquiry.2.GoesOn := by
    simp [Inquiry.GoesOn]
  exact ⟨g, s₀, hgame, hs₀, hverdict, hcurrent, (hfinished _ hverdict _ hgoesOn).1, hstart⟩

end Session

end HouseRules
