import HouseRules.Proofs.Judge.Question
import HouseRules.Proofs.Judge.Recursion
import HouseRules.Proofs.Session.Conservation

/-!
# What is offered and what is carried out

A session offers the entries of the current phase's allow block whose preconditions hold
(`Session.allowed`), and carries out what is asked for if it stands for such an entry
(`Session.perform`). The second does not ask for the precondition. So of two things that one might
expect of an action that was carried out, that it stands in the allow block of the current phase and
that it was on offer, only the first is always so, and the second exactly when the precondition
holds (`Session.perform_of_current_phase`). This is said of games whose conditions only ask, where
listing what is on offer does not change what it depends on.

Reference: `Engine.perform_checked`, `Engine.collect_allowed`, `AllowedAction` (specification 4.5,
E4).
-/

namespace HouseRules

open Answer (andThen)

/-- The precondition of an entry, if it has one, holds. -/
def Judge.Permits (j : Judge) (t : Table) (entry : AllowedAction) : Prop :=
  ∀ r, entry.precondition = some r → (j.holds r [] t).1 = .ok true

namespace Judge

variable {j : Judge} {t t' : Table}

/-- The answer to whether an entry is permitted is whether its precondition holds, and asking leaves
the table as it is. -/
theorem permission_ok {entry : AllowedAction}
    (hasks : ∀ r, entry.precondition = some r → j.graph.OnlyAsks r.id) {permission : Bool}
    (h : (match entry.precondition with
      | some r => j.holds r [] t
      | none => (.ok true, t)) = (.ok permission, t')) :
    (permission = true ↔ j.Permits t entry) ∧ t' = t := by
  unfold Permits
  split at h
  next r hr =>
    have htable := j.holds_table (hasks r hr) [] t
    rw [h] at htable
    exact ⟨by simp [hr, h], htable⟩
  next hr =>
    cases h
    simp [hr]

/-- The entries on offer are those whose preconditions hold, each at its place. -/
theorem mem_permitted {phase : PhaseId} {index : Nat} {entries : List AllowedAction}
    {offers : List Offer}
    (hasks : ∀ entry ∈ entries, ∀ r, entry.precondition = some r → j.graph.OnlyAsks r.id)
    (h : j.permitted phase index entries t = (.ok offers, t')) {offer : Offer} :
    offer ∈ offers ↔ ∃ i entry, entries[i]? = some entry ∧ j.Permits t entry ∧
      offer = ⟨phase, index + i, entry.action⟩ := by
  induction entries generalizing index offers t' with
  | nil =>
    cases h
    simp
  | cons entry entries ih =>
    unfold permitted at h
    simp only [Answer.andThen_eq_ok] at h
    obtain ⟨permission, t₁, hpermission, rest, t₂, hrest, h⟩ := h
    obtain ⟨hentry, hentries⟩ := List.forall_mem_cons.1 hasks
    obtain ⟨hiff, ht₁⟩ := permission_ok hentry hpermission
    subst t₁
    have hoffers : offers = if permission then ⟨phase, index, entry.action⟩ :: rest else rest :=
      (Except.ok.inj (congrArg Prod.fst h)).symm
    have hmem : offer ∈ offers ↔
        j.Permits t entry ∧ offer = ⟨phase, index, entry.action⟩ ∨ offer ∈ rest := by
      rw [hoffers, ← hiff]
      cases permission <;> simp
    rw [hmem, ih hentries hrest]
    constructor
    · rintro (⟨hholds, rfl⟩ | ⟨i, e, he, hholds, rfl⟩)
      · exact ⟨0, entry, rfl, hholds, rfl⟩
      · exact ⟨i + 1, e, he, hholds, by rw [Nat.add_assoc, Nat.add_comm 1]⟩
    · rintro ⟨i, e, he, hholds, rfl⟩
      cases i with
      | zero =>
        cases he
        exact .inl ⟨hholds, rfl⟩
      | succ i => exact .inr ⟨i, e, he, hholds, by rw [Nat.add_assoc, Nat.add_comm 1]⟩

end Judge

namespace Session

/-- What is carried out stands where the offer says, in the allow block of the current phase. -/
theorem entryOf_ok {s : Session} {offer : Offer} {entry : AllowedAction} :
    s.entryOf offer = .ok entry ↔
      s.table.position.phase = some offer.phase ∧
        ∃ phase, s.game.graph.phase offer.phase = .ok phase ∧
          phase.allowed[offer.index]? = some entry ∧ entry.action = offer.performable := by
  simp only [entryOf, guard_ok, bind_ok, orFail_eq_ok, Option.filter_eq_some_iff, beq_iff_eq,
    bne_iff_ne, ne_eq, not_not]

/-- What is on offer is what would be carried out and has a precondition that holds. -/
theorem mem_allowed {s s₁ : Session} (hstarted : s.started = true)
    (hover : s.table.isOver = false) (hasks : ∀ c ∈ s.game.graph.conditions, c.OnlyAsks)
    {offers : List Offer} (h : s.allowed = (.ok offers, s₁)) {offer : Offer} :
    offer ∈ offers ↔ ∃ entry, s.entryOf offer = .ok entry ∧ s.judge.Permits s.table entry := by
  simp only [entryOf_ok]
  unfold allowed allowedFor at h
  have hposition : s.table.phaseOf? s.table.current = s.table.position.phase := rfl
  rw [hstarted, hover, if_neg (by decide), hposition] at h
  cases hphase : s.table.position.phase with
  | none =>
    rw [hphase] at h
    cases h
    simp
  | some id =>
    rw [hphase] at h
    obtain ⟨hresult, -⟩ := Prod.mk.inj h
    obtain ⟨phase, t, hfound, hpermitted⟩ := Answer.andThen_eq_ok.1 (Prod.ext hresult rfl)
    obtain ⟨hid, rfl⟩ : s.game.graph.phase id = .ok phase ∧ s.table = t :=
      Prod.mk.inj hfound
    rw [Judge.mem_permitted (fun _ _ r _ => .of_forall hasks r.id) hpermitted]
    constructor
    · rintro ⟨i, entry, hentry, hholds, rfl⟩
      exact ⟨entry, ⟨rfl, phase, hid, by rwa [Nat.zero_add], rfl⟩, hholds⟩
    · rintro ⟨entry, ⟨heq, phase', hphase', hentry, haction⟩, hholds⟩
      obtain rfl := Option.some.inj heq
      obtain rfl := Except.ok.inj (hid.symm.trans hphase')
      exact ⟨offer.index, entry, hentry, hholds, by rw [Nat.zero_add, haction]⟩

/-- What was carried out is an entry of the phase that the player whose turn it is was in, of a game
that was not over; and it was on offer, where there was an answer to what is on offer, exactly if
its precondition held. -/
theorem perform_of_current_phase {s s' : Session} (hstarted : s.started = true)
    (hasks : ∀ c ∈ s.game.graph.conditions, c.OnlyAsks) {offer : Offer} {values : List Value}
    (h : s.perform offer values = (.ok true, s')) :
    s.table.isOver = false ∧ s.table.phaseOf? s.table.current = some offer.phase ∧
      ∃ phase entry, s.game.graph.phase offer.phase = .ok phase ∧
        phase.allowed[offer.index]? = some entry ∧ entry.action = offer.performable ∧
        ∀ offers s₁, s.allowed = (.ok offers, s₁) →
          (offer ∈ offers ↔ ∀ r, entry.precondition = some r →
            (s.judge.holds r [] s.table).1 = .ok true) := by
  unfold perform at h
  split at h
  · cases h
  next entry hentry =>
    obtain ⟨hphase, phase, hid, hplace, haction⟩ := entryOf_ok.1 hentry
    split at h
    · cases h
    next hover =>
      rw [Bool.not_eq_true] at hover
      refine ⟨hover, hphase, phase, entry, hid, hplace, haction, fun offers s₁ hallowed => ?_⟩
      rw [mem_allowed hstarted hover hasks hallowed]
      constructor
      · rintro ⟨entry', hentry', hholds⟩
        obtain rfl := Except.ok.inj (hentry.symm.trans hentry')
        exact hholds
      · exact fun hholds => ⟨entry, hentry, hholds⟩

/-! ## Leaving too early -/

/-- A session of a game whose one action is on offer once the pile is empty; a card lies there. -/
def leaving : Session where
  game :=
    let empty : Condition :=
      ⟨"empty", [⟨false, .call .checkIfEmpty [.pile ⟨⟨0⟩, .current⟩], none⟩], false⟩
    let turn : Phase := ⟨"turn", [], [⟨.action ⟨0⟩, some ⟨⟨0⟩, false⟩, []⟩], []⟩
    { name := "leaving", title := "leaving", leastPlayers := 1, mostPlayers := 1
      deck := .ofCards "leaving" [⟨0, "a", none⟩]
      layout := { (default : Layout) with piles := [⟨"draw", {}⟩] }
      ranking := .flat, direction := .clockwise, deal := {}, startPhase := ⟨0⟩
      graph := {
        aliases := [], controlled := []
        actions := [⟨"leave", none, .goTo, [.phase ⟨1⟩]⟩]
        conditions := [empty]
        phases := [turn, ⟨"rest", [], [], []⟩] }
      brief := none }
  config := { seed := 1 }
  table :=
    { board := ⟨[⟨"draw", ⟨0⟩, none, {}, [⟨0, "a", none⟩]⟩], []⟩
      players := [⟨"ann", [], some ⟨0⟩, .playing⟩]
      current := .first, turn := 1, direction := .clockwise, stream := .ofSeed 1 }
  dealer := ⟨⟨.ofCards "leaving" [⟨0, "a", none⟩], []⟩, {}, [.first], .ofSeed 1, ⟨.done, [], 0, 0⟩⟩
  started := true

/-- The precondition is asked and does not hold. -/
theorem leaving_allowed : leaving.allowed = (.ok [], leaving) := by
  have hwithin : leaving.judge.conditionWithin 2 ⟨0⟩ [] leaving.table .empty =
      some ((.ok false, leaving.table), .empty) := rfl
  have hcondition : (leaving.judge.condition .empty ⟨0⟩ [] leaving.table).1 =
      (.ok false, leaving.table) :=
    congrArg Prod.fst <| Option.some.inj <|
      (Judge.conditionWithin_eq (by decide) ⟨0⟩ [] leaving.table).symm.trans hwithin
  have hholds : leaving.judge.holds ⟨⟨0⟩, false⟩ [] leaving.table = (.ok false, leaving.table) := by
    rw [Judge.holds, hcondition]
    rfl
  have hallowed : leaving.allowed = leaving.after
      (leaving.judge.permitted ⟨0⟩ 0 [⟨.action ⟨0⟩, some ⟨⟨0⟩, false⟩, []⟩] leaving.table) := rfl
  rw [hallowed]
  simp only [Judge.permitted, hholds, Answer.andThen_ok]
  rfl

/-- The action is carried out though it is not on offer. -/
theorem leaving_of_current_phase :
    (∀ c ∈ leaving.game.graph.conditions, c.OnlyAsks) ∧ leaving.started = true ∧
      (∃ s', leaving.perform ⟨⟨0⟩, 0, .action ⟨0⟩⟩ [] = (.ok true, s')) ∧
      leaving.allowed = (.ok [], leaving) ∧
      ∃ phase entry, leaving.game.graph.phase ⟨0⟩ = .ok phase ∧ phase.allowed[0]? = some entry ∧
        ¬ ∀ r, entry.precondition = some r →
          (leaving.judge.holds r [] leaving.table).1 = .ok true := by
  have hasks : ∀ c ∈ leaving.game.graph.conditions, c.OnlyAsks := by decide
  have hperform : leaving.perform ⟨⟨0⟩, 0, .action ⟨0⟩⟩ [] =
      (.ok true, (leaving.perform ⟨⟨0⟩, 0, .action ⟨0⟩⟩ []).2) :=
    Prod.ext (by decide +kernel) rfl
  obtain ⟨-, -, phase, entry, hid, hplace, -, hoffered⟩ :=
    perform_of_current_phase rfl hasks hperform
  refine ⟨hasks, rfl, ⟨_, hperform⟩, leaving_allowed, phase, entry, hid, hplace, fun hholds => ?_⟩
  exact absurd ((hoffered [] leaving leaving_allowed).2 hholds) List.not_mem_nil

end Session

end HouseRules
