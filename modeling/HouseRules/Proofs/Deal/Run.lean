import HouseRules.Proofs.Board.Instance
import HouseRules.Proofs.Deal.Due

/-!
# Dealing on

What a dealer will deal is a list of targets and cards: the targets that are due, each with the card
that is on its turn (`Dealer.upcoming`). A call that deals takes off the first element of the list
and carries it out (`Dealer.dealNext_cons`); when the list is empty a call does nothing
(`Dealer.dealNext_nil`). By induction any number of calls carries out so many elements
(`Dealer.calls_spec`), and dealing to the end carries out the rest (`Dealer.dealUpTo_spec`).
-/

namespace HouseRules

/-! ## Putting cards on their targets -/

namespace Board

/-- The board has a pile for a target. -/
def Serves (b : Board) (target : DealTarget) : Prop :=
  b.HasInstance target.slot (target.receiver.getD .first)

/-- The board with a card put on its target by the placement policy of the pile. -/
def place (b : Board) (x : DealTarget × Card) : Board :=
  match b.find? x.1.slot (x.1.receiver.getD .first) with
  | some id => b.modify id (·.add x.2)
  | none => b

@[simp] theorem clear_place (b : Board) (x : DealTarget × Card) : (b.place x).clear = b.clear := by
  unfold place
  split
  · exact clear_modify fun p _ => p.clear_add _
  · rfl

@[simp] theorem clear_foldl_place (b : Board) (xs : List (DealTarget × Card)) :
    (xs.foldl place b).clear = b.clear := by
  induction xs generalizing b with
  | nil => rfl
  | cons x xs ih => rw [List.foldl_cons, ih, clear_place]

/-- Whether a target is served depends on the piles alone, not on the cards on them. -/
theorem Serves.congr {b b' : Board} {target : DealTarget} (h : b.Serves target)
    (hclear : b.clear = b'.clear) : b'.Serves target :=
  HasInstance.congr hclear h

end Board

namespace Dealer

open DealCursor

variable {d d' d'' : Dealer} {cards : Nat} {b : Board}

/-! ## What is to be dealt -/

/-- The counters of a dealer are in step with the cards that are left. -/
def InStep (d : Dealer) (cards : Nat) : Prop :=
  DealCursor.InStep d.plan d.seats cards d.remaining d.cursor

/-- What will be dealt where. -/
def upcoming (d : Dealer) (cards : Nat) : List (DealTarget × Card) :=
  (due d.plan d.seats cards d.cursor).zip d.stock.rest

/-- A dealer is another one some cards later. -/
structure After (d d' : Dealer) (n : Nat) : Prop where
  stock : d'.stock = ⟨d.stock.deck, d.stock.rest.drop n⟩
  plan : d'.plan = d.plan
  seats : d'.seats = d.seats
  stream : d'.stream = d.stream

/-- A dealer is where it is after no card. -/
theorem After.refl (d : Dealer) : d.After d 0 := ⟨rfl, rfl, rfl, rfl⟩

/-- After some cards and then some more, a dealer is where it is after all of them. -/
theorem After.trans {m n : Nat} (h : d.After d' m) (h' : d'.After d'' n) :
    d.After d'' (m + n) := by
  refine ⟨?_, h'.plan.trans h.plan, h'.seats.trans h.seats, h'.stream.trans h.stream⟩
  rw [h'.stock, h.stock, List.drop_drop]

/-! ## One call -/

/-- A report is never empty. -/
theorem report_ne_empty (card : Card) (pile : Pile) (receiver : Option Seat) :
    report card pile receiver ≠ "" := by
  unfold report
  cases receiver <;> simp

/-- Going on past what has had its share leaves what is due. -/
theorem settle_spec (h : d.InStep cards) :
    due d.plan d.seats cards d.settle.cursor = due d.plan d.seats cards d.cursor ∧
      d.settle.InStep cards ∧ Settled d.plan d.seats d.settle.cursor :=
  DealCursor.settle_spec h

/-- A settled cursor without pairs has nothing due. -/
theorem due_eq_nil {c : DealCursor} {plan : DealPlan} {seats : List Seat}
    (hsettled : Settled plan seats c) (hpairs : c.pairs = []) : due plan seats cards c = [] := by
  rw [due, hpairs, hsettled.done hpairs]
  rfl

/-- Counting a card and taking it from the stock do not interfere. -/
theorem advance_withStock (d : Dealer) (stock : Stock) :
    advance { d with stock } = { d.advance with stock } := by
  unfold advance
  dsimp only
  split
  · split <;> rfl
  · rfl

/-- Counting a card changes no more than the place in the plan. -/
theorem advance_eq (d : Dealer) : d.advance = { d with cursor := d.advance.cursor } := by
  unfold advance
  dsimp only
  split
  · split <;> rfl
  · rfl

/-- With a card left and a pair left to do, the next target is that of the pair. -/
theorem due_settle (h : d.InStep cards) {pair : DealPair} {rest : List DealPair} {card : Card}
    {more : List Card} (hpairs : d.settle.cursor.pairs = pair :: rest)
    (hrest : d.stock.rest = card :: more) :
    due d.plan d.seats cards d.cursor =
        ⟨pair.slot, d.settle.receiver?⟩ :: due d.plan d.seats cards d.settle.advance.cursor ∧
      DealCursor.InStep d.plan d.seats cards more.length d.settle.advance.cursor := by
  obtain ⟨hdue, hstep, hsettled⟩ := d.settle_spec h
  have hremaining : d.settle.remaining = more.length + 1 := by
    show d.stock.rest.length = more.length + 1
    rw [hrest, List.length_cons]
  have hstep' : DealCursor.InStep d.plan d.seats cards (more.length + 1) d.settle.cursor :=
    hremaining ▸ hstep
  obtain ⟨hadvance, hnext⟩ := due_advance (d := d.settle) hstep' hsettled hpairs
  exact ⟨hdue.symm.trans hadvance, hnext⟩

/-- A call that has something to deal deals it. -/
theorem dealNext_cons (h : d.InStep cards) {target : DealTarget} {card : Card}
    {later : List (DealTarget × Card)} (hnext : d.upcoming cards = (target, card) :: later)
    (hboard : b.Serves target) :
    ∃ text d' id, d.dealNext b = (some text, d', b.modify id (·.add card)) ∧ text ≠ "" ∧
      b.find? target.slot (target.receiver.getD .first) = some id ∧ d.After d' 1 ∧
      d'.InStep cards ∧ d'.upcoming cards = later := by
  obtain ⟨hdue, -, hsettled⟩ := d.settle_spec h
  obtain ⟨targets, more, htargets, hrest, rfl⟩ := List.zip_eq_cons_iff.1 hnext
  cases hpairs : d.settle.cursor.pairs with
  | nil =>
    rw [← hdue, due_eq_nil hsettled hpairs] at htargets
    cases htargets
  | cons pair rest =>
    obtain ⟨hadvance, hstep⟩ := due_settle h hpairs hrest
    -- The card counted is the first one due, so the cursor points to the target.
    obtain ⟨rfl, rfl⟩ := List.cons.inj (hadvance.symm.trans htargets)
    obtain ⟨id, hid⟩ := hboard.exists_find?
    obtain ⟨pile, hpile⟩ := Board.exists_pile? (Board.find?_lt hid)
    have hstock : d.settle.stock = ⟨d.stock.deck, card :: more⟩ := by
      rw [← hrest]
      rfl
    have hcall : d.dealNext b = (some (report card pile d.settle.receiver?),
        settle { d with stock := ⟨d.stock.deck, more⟩, cursor := d.settle.advance.cursor },
        b.modify id (·.add card)) := by
      have htarget : d.settle.target? b pair = some id := hid
      simp only [dealNext, hpairs, htarget, hpile, Option.bind_some, Option.map_some, Stock.deal,
        hstock, advance_withStock]
      rw [advance_eq]
      rfl
    obtain ⟨hdue', hstep', -⟩ := settle_spec
      (d := { d with stock := ⟨d.stock.deck, more⟩, cursor := d.settle.advance.cursor }) hstep
    refine ⟨_, _, id, hcall, report_ne_empty _ _ _, hid, ⟨?_, rfl, rfl, rfl⟩, hstep', ?_⟩
    · rw [hrest]
      rfl
    · exact congrArg (List.zip · more) hdue'

/-- With nothing to deal and a pair left to do, it is the cards that are used up. -/
theorem rest_eq_nil (h : d.InStep cards) (hnext : d.upcoming cards = []) {pair : DealPair}
    {rest : List DealPair} (hpairs : d.settle.cursor.pairs = pair :: rest) : d.stock.rest = [] := by
  cases hrest : d.stock.rest with
  | nil => rfl
  | cons card more =>
    obtain ⟨hadvance, -⟩ := due_settle h hpairs hrest
    rw [upcoming, hrest, hadvance] at hnext
    cases hnext

/-- A call that has nothing to deal does nothing, and neither does any call after it. -/
theorem dealNext_nil (h : d.InStep cards) (hnext : d.upcoming cards = []) :
    ∃ d', d.dealNext b = (none, d', b) ∧ d.After d' 0 ∧ d'.InStep cards ∧
      d'.upcoming cards = [] ∧ d'.isDone = true := by
  obtain ⟨hdue, hstep, hsettled⟩ := d.settle_spec h
  cases hpairs : d.settle.cursor.pairs with
  | nil =>
    have hcall : d.dealNext b = (none, d.settle, b) := by
      simp only [dealNext, hpairs]
    refine ⟨d.settle, hcall, ⟨rfl, rfl, rfl, rfl⟩, hstep, ?_, ?_⟩
    · exact (congrArg (List.zip · d.stock.rest) hdue).trans hnext
    · exact beq_iff_eq.2 (hsettled.done hpairs)
  | cons pair rest =>
    have hrest : d.stock.rest = [] := rest_eq_nil h hnext hpairs
    have hstock : d.settle.stock = ⟨d.stock.deck, []⟩ := by
      rw [← hrest]
      rfl
    have hcall : d.dealNext b = (none, stop { d.settle with stock := ⟨d.stock.deck, []⟩ }, b) := by
      simp only [dealNext, hpairs, Stock.deal, hstock]
      split
      next heq => cases heq
      next => rfl
    refine ⟨_, hcall, ⟨?_, rfl, rfl, rfl⟩, ?_, List.zip_nil_right .., rfl⟩
    · rw [hrest]
      rfl
    · exact .begin hstep.players (Nat.zero_le _) .done fun _ => rfl

/-! ## Many calls -/

/-- What a call deals is what placing the first element of the list does. -/
theorem dealNext_place (h : d.InStep cards) {x : DealTarget × Card}
    {later : List (DealTarget × Card)} (hnext : d.upcoming cards = x :: later)
    (hboard : b.Serves x.1) :
    ∃ text d', d.dealNext b = (some text, d', b.place x) ∧ d.After d' 1 ∧ d'.InStep cards ∧
      d'.upcoming cards = later := by
  obtain ⟨text, d', id, hcall, -, hid, hafter, hstep, hlater⟩ := dealNext_cons h hnext hboard
  refine ⟨text, d', ?_, hafter, hstep, hlater⟩
  rw [hcall, Board.place, hid]

/-- The dealer and the board after some calls. -/
def calls : (n : Nat) → Dealer → Board → Dealer × Board
  | 0, d, b => (d, b)
  | n + 1, d, b =>
    let (_, d, b) := d.dealNext b
    calls n d b

/-- So many calls carry out so many elements of the list, or all of them if it has fewer. -/
theorem calls_spec (n : Nat) (h : d.InStep cards)
    (hboard : ∀ x ∈ d.upcoming cards, b.Serves x.1) :
    ∃ d', calls n d b = (d', ((d.upcoming cards).take n).foldl Board.place b) ∧
      d'.InStep cards ∧ d'.upcoming cards = (d.upcoming cards).drop n := by
  induction n generalizing d b with
  | zero => exact ⟨d, rfl, h, rfl⟩
  | succ n ih =>
    cases hnext : d.upcoming cards with
    | nil =>
      obtain ⟨d₁, hcall, -, hstep, hnil, -⟩ := dealNext_nil (b := b) h hnext
      obtain ⟨d', hcalls, hstep', hlater⟩ := ih hstep (by simp [hnil])
      refine ⟨d', ?_, hstep', ?_⟩
      · rw [calls, hcall]
        simpa [hnil] using hcalls
      · simpa [hnil] using hlater
    | cons x later =>
      obtain ⟨text, d₁, hcall, -, hstep, hlater⟩ :=
        dealNext_place h hnext (hboard x (by simp [hnext]))
      obtain ⟨d', hcalls, hstep', hdrop⟩ := ih hstep fun y hy =>
        (hboard y (by simp [hnext, hlater ▸ hy])).congr (Board.clear_place b x).symm
      refine ⟨d', ?_, hstep', ?_⟩
      · rw [calls, hcall]
        simpa [hlater] using hcalls
      · simpa [hlater] using hdrop

/-- Dealing on to the end carries out the whole list, given one call more than it is long. -/
theorem dealUpTo_spec {n : Nat} (dealt : Nat) (h : d.InStep cards)
    (hboard : ∀ x ∈ d.upcoming cards, b.Serves x.1) (hn : (d.upcoming cards).length < n) :
    ∃ d', dealUpTo n dealt d b =
        (dealt + (d.upcoming cards).length, d', (d.upcoming cards).foldl Board.place b) ∧
      d.After d' (d.upcoming cards).length ∧ d'.InStep cards ∧ d'.upcoming cards = [] ∧
      d'.isDone = true := by
  induction n generalizing d b dealt with
  | zero => exact absurd hn (Nat.not_lt_zero _)
  | succ n ih =>
    cases hnext : d.upcoming cards with
    | nil =>
      obtain ⟨d', hcall, hafter, hstep, hnil, hdone⟩ := dealNext_nil (b := b) h hnext
      exact ⟨d', by simp only [dealUpTo, hcall, List.length_nil, Nat.add_zero, List.foldl_nil],
        hafter, hstep, hnil, hdone⟩
    | cons x later =>
      obtain ⟨text, d₁, hcall, hafter₁, hstep, hlater⟩ :=
        dealNext_place h hnext (hboard x (by simp [hnext]))
      have hn' : (d₁.upcoming cards).length < n := by
        rw [hnext, List.length_cons] at hn
        rw [hlater]
        omega
      obtain ⟨d', hall, hafter, hrest⟩ := ih (dealt + 1) hstep (fun y hy =>
        (hboard y (by simp [hnext, hlater ▸ hy])).congr (Board.clear_place b x).symm) hn'
      rw [hlater] at hall hafter
      refine ⟨d', ?_, ?_, hrest⟩
      · rw [dealUpTo, hcall, List.length_cons, List.foldl_cons, Nat.add_comm later.length,
          ← Nat.add_assoc]
        exact hall
      · rw [List.length_cons, Nat.add_comm]
        exact hafter₁.trans hafter

/-- There are never more cards to deal than cards. -/
theorem length_upcoming_le (d : Dealer) (cards : Nat) :
    (d.upcoming cards).length ≤ d.remaining := by
  rw [upcoming, List.length_zip]
  exact Nat.min_le_right ..

/-- Dealing all deals what is to be dealt, and then the deal is over. -/
theorem dealAll_spec (h : d.InStep cards) (hboard : ∀ x ∈ d.upcoming cards, b.Serves x.1) :
    ∃ d', d.dealAll b =
        ((d.upcoming cards).length, d', (d.upcoming cards).foldl Board.place b) ∧
      d.After d' (d.upcoming cards).length ∧ d'.InStep cards ∧ d'.upcoming cards = [] ∧
      d'.isDone = true := by
  have hall := dealUpTo_spec 0 h hboard (Nat.lt_succ_of_le (d.length_upcoming_le cards))
  rwa [Nat.zero_add] at hall

end Dealer

end HouseRules
