import Mathlib.Data.List.Forall2
import HouseRules.Proofs.Operation.Changes
import HouseRules.Proofs.Session.Offers
import HouseRules.Session.View

/-!
# What a view gives away

A view lists the topmost cards of each pile, as many as the viewer may see, and the size of the
pile. That it tells nothing else is a statement about two boards: where the piles are alike from the
outside (`Pile.SameOutside`), the views of a viewer are the same exactly if the piles agree on the
cards that this viewer sees (`Pile.AgreesFor`), whatever else lies in them and in what order
(`Session.view_eq_iff`).

Depth is counted here by the place in the pile (`Pile.fromTop?`) and not by the reversed list that a
view is cut from, so that a view from the wrong end would not do. What changes only piles that a
viewer sees nothing of, and leaves their sizes, does not show (`Session.view_of_hidden`); shuffles
and sorts are such changes, and so is putting in as many other cards. `Session.view_hides` is all of
this.

Reference: `Engine.board_view`, `CardPile.visible_count` (specification E2.2, E5).
-/

namespace HouseRules

open List (Forall₂)

/-! ## Piles -/

namespace Pile

variable {p q : Pile} {viewer : Seat}

/-- The card at a depth; the topmost is at depth 0. -/
def fromTop? (p : Pile) (depth : Nat) : Option Card :=
  if depth < p.size then p.cards[p.size - 1 - depth]? else none

/-- Counting from the top is counting the reversed cards. -/
theorem fromTop?_eq_reverse (p : Pile) (depth : Nat) :
    p.fromTop? depth = p.cards.reverse[depth]? := by
  unfold fromTop? size
  split
  next h => rw [List.getElem?_reverse h]
  next h =>
    rw [List.getElem?_eq_none]
    rw [List.length_reverse]
    exact Nat.le_of_not_lt h

/-- The cards that are seen are those down to the number that is seen. -/
theorem getElem?_visibleCards (p : Pile) (viewer : Seat) (depth : Nat) :
    (p.visibleCards viewer)[depth]? =
      if depth < p.visibleCount viewer then p.fromTop? depth else none := by
  rw [visibleCards, List.getElem?_take, fromTop?_eq_reverse]

/-- Two piles are one pile to somebody who sees none of the cards. -/
structure SameOutside (p q : Pile) : Prop where
  name : p.name = q.name
  owner : p.owner = q.owner
  policy : p.policy = q.policy
  size : p.size = q.size

/-- Two piles have the same cards where a viewer sees those of the first. -/
def AgreesFor (viewer : Seat) (p q : Pile) : Prop :=
  ∀ depth < p.visibleCount viewer, p.fromTop? depth = q.fromTop? depth

/-- Whether two piles agree for a viewer is decided card by card. -/
instance (viewer : Seat) (p q : Pile) : Decidable (p.AgreesFor viewer q) :=
  inferInstanceAs (Decidable (∀ depth < p.visibleCount viewer, p.fromTop? depth = q.fromTop? depth))

/-- Whatever is done to the cards, a pile of the same frame and size is the same from outside. -/
theorem sameOutside_of_clear (hclear : q.clear = p.clear) (hsize : q.size = p.size) :
    p.SameOutside q where
  name := (congrArg Pile.name hclear).symm
  owner := (congrArg Pile.owner hclear).symm
  policy := (congrArg Pile.policy hclear).symm
  size := hsize.symm

/-- Where a viewer sees no card every pile agrees. -/
theorem agreesFor_of_hidden (h : p.visibleCount viewer = 0) : p.AgreesFor viewer q :=
  fun _ hdepth => absurd (h ▸ hdepth) (Nat.not_lt_zero _)

namespace SameOutside

/-- How many cards are seen does not depend on the cards. -/
theorem visibleCount (h : p.SameOutside q) (viewer : Seat) :
    p.visibleCount viewer = q.visibleCount viewer := by
  have hopen : p.isOpenTo viewer = q.isOpenTo viewer := by
    rw [isOpenTo, isOpenTo, h.policy, h.owner]
  rw [Pile.visibleCount, Pile.visibleCount, hopen, h.policy, h.size]

/-- A viewer sees the same cards of two piles exactly if these agree for the viewer. -/
theorem visibleCards_eq_iff (h : p.SameOutside q) :
    p.visibleCards viewer = q.visibleCards viewer ↔ p.AgreesFor viewer q := by
  have hcount := h.visibleCount viewer
  constructor
  · intro heq depth hdepth
    have hcard := congrArg (fun cards => cards[depth]?) heq
    simp only [getElem?_visibleCards] at hcard
    rwa [← hcount, if_pos hdepth, if_pos hdepth] at hcard
  · intro hagrees
    refine List.ext_getElem? fun depth => ?_
    rw [getElem?_visibleCards, getElem?_visibleCards, ← hcount]
    split
    next hdepth => exact hagrees depth hdepth
    next => rfl

/-- A viewer has the same view of two piles exactly if these agree for the viewer. -/
theorem view_eq_iff (h : p.SameOutside q) (id : PileId) :
    p.view id viewer = q.view id viewer ↔ p.AgreesFor viewer q := by
  rw [← h.visibleCards_eq_iff, view, view, h.name, h.owner, h.size, PileView.mk.injEq]
  simp only [true_and]

end SameOutside

end Pile

/-- A view of a pile shows the cards down to the number that its viewer sees, from the top down, and
no more of it than its name, its owner and its size. -/
structure PileView.Shows (v : PileView) (p : Pile) (viewer : Seat) : Prop where
  name : v.name = p.name
  owner : v.owner = p.owner
  size : v.size = p.size
  length : v.visible.length = p.visibleCount viewer
  length_le : v.visible.length ≤ p.size
  cards : ∀ depth, v.visible[depth]? =
    if depth < p.visibleCount viewer then p.fromTop? depth else none

/-- The view of a pile shows what its visibility grants the viewer, and no more. -/
theorem Pile.shows_view (p : Pile) (id : PileId) (viewer : Seat) :
    (p.view id viewer).Shows p viewer where
  name := rfl
  owner := rfl
  size := rfl
  length := p.length_visibleCards viewer
  length_le := p.length_visibleCards viewer ▸ p.visibleCount_le viewer
  cards := p.getElem?_visibleCards viewer

/-! ## Boards -/

namespace Board

variable {b b' : Board} {ids : List PileId}

/-- What holds of the piles of each number, on two boards of one frame, holds pile by pile. -/
theorem forall₂_of_clear {R : Pile → Pile → Prop} (hclear : b'.clear = b.clear)
    (h : ∀ id p q, b.pile? id = some p → b'.pile? id = some q → q.clear = p.clear → R p q) :
    Forall₂ R b.piles b'.piles := by
  have hpiles : b'.piles.map Pile.clear = b.piles.map Pile.clear := congrArg Board.piles hclear
  have hlength : b.piles.length = b'.piles.length := by
    simpa using (congrArg List.length hpiles).symm
  refine List.forall₂_iff_get.2 ⟨hlength, fun i hi hi' => ?_⟩
  refine h ⟨i⟩ _ _ (List.getElem?_eq_getElem hi) (List.getElem?_eq_getElem hi') ?_
  have hframe := congrArg (fun piles => piles[i]?) hpiles
  simpa [hi, hi'] using hframe

/-- Some piles of a board hide all their cards from a viewer and keep their sizes on another. -/
def HidesChange (b b' : Board) (viewer : Seat) (ids : List PileId) : Prop :=
  ∀ id ∈ ids, ∀ p q, b.pile? id = some p → b'.pile? id = some q →
    p.visibleCount viewer = 0 ∧ q.size = p.size

/-- Changes hidden from a viewer leave all piles the same outside, and agreeing for the viewer. -/
theorem ChangesOnly.sameOutside {viewer : Seat} (h : b.ChangesOnly b' ids)
    (hhides : b.HidesChange b' viewer ids) :
    Forall₂ (fun p q => p.SameOutside q ∧ p.AgreesFor viewer q) b.piles b'.piles := by
  refine forall₂_of_clear h.frame fun id p q hp hq hclear => ?_
  by_cases hid : id ∈ ids
  · obtain ⟨hhidden, hsize⟩ := hhides id hid p q hp hq
    exact ⟨Pile.sameOutside_of_clear hclear hsize, Pile.agreesFor_of_hidden hhidden⟩
  · have heq : q = p := Option.some.inj (hq.symm.trans ((h.others id hid).trans hp))
    subst heq
    exact ⟨⟨rfl, rfl, rfl, rfl⟩, fun _ _ => rfl⟩

/-- A change of order leaves the sizes. -/
theorem Reorders.hidesChange {viewer : Seat} (h : b.Reorders b' ids)
    (hhidden : ∀ id ∈ ids, ∀ p, b.pile? id = some p → p.visibleCount viewer = 0) :
    b.HidesChange b' viewer ids := by
  refine fun id hid p q hp hq => ⟨hhidden id hid p hp, ?_⟩
  have hperm := h.cards id
  rw [cardsAt_of_pile? hp, cardsAt_of_pile? hq] at hperm
  exact hperm.length_eq

end Board

/-- Two rows of piles that are alike from outside look the same exactly where they agree. -/
theorem Pile.views_eq_iff {viewer : Seat} {ps qs : List Pile} (h : Forall₂ SameOutside ps qs)
    (n : Nat) :
    ((ps.zipIdx n).map fun (p, i) => p.view (.ofNat i) viewer) =
        ((qs.zipIdx n).map fun (q, i) => q.view (.ofNat i) viewer) ↔
      Forall₂ (AgreesFor viewer) ps qs := by
  induction h generalizing n with
  | nil => simp
  | cons hpq hrest ih =>
    simp only [List.zipIdx_cons, List.map_cons, List.cons.injEq, List.forall₂_cons,
      hpq.view_eq_iff, ih]

/-! ## Sessions -/

namespace Session

variable {s s' : Session} {viewer : Seat} {ids : List PileId}

/-- A view of a session has a view of each pile, under its number. -/
theorem view_piles (s : Session) (viewer : Seat) :
    (s.view viewer).piles =
      s.table.board.piles.zipIdx.map fun (p, i) => p.view (.ofNat i) viewer := by
  simp only [view, Board.entries, List.map_map, Function.comp_def]

/-- Each pile is viewed at its own place. -/
theorem getElem?_view (s : Session) (viewer : Seat) (id : PileId) :
    (s.view viewer).piles[id.index]? =
      (s.table.board.pile? id).map (·.view (.ofNat id.index) viewer) := by
  rw [view_piles, List.getElem?_map, List.getElem?_zipIdx, Board.pile?, Option.map_map,
    Nat.zero_add]
  rfl

/-- Two views are the same exactly if the boards are, as far as the viewer sees them. -/
theorem view_eq_iff (h : Forall₂ Pile.SameOutside s.table.board.piles s'.table.board.piles) :
    s.view viewer = s'.view viewer ↔
      s.table.current = s'.table.current ∧ s.table.turn = s'.table.turn ∧
        Forall₂ (Pile.AgreesFor viewer) s.table.board.piles s'.table.board.piles := by
  rw [← Pile.views_eq_iff h 0, ← view_piles, ← view_piles]
  simp only [view, BoardView.mk.injEq, true_and]

/-- What changes only piles that a viewer sees nothing of, and not their sizes, does not show. -/
theorem view_of_hidden {t : Table} (hcurrent : t.current = s.table.current)
    (hturn : t.turn = s.table.turn) (hboard : s.table.board.ChangesOnly t.board ids)
    (hhides : s.table.board.HidesChange t.board viewer ids) :
    { s with table := t }.view viewer = s.view viewer := by
  have hsame := hboard.sameOutside hhides
  have hview : s.view viewer = { s with table := t }.view viewer :=
    (view_eq_iff (hsame.imp fun _ _ h => h.1)).2
      ⟨hcurrent.symm, hturn.symm, hsame.imp fun _ _ h => h.2⟩
  exact hview.symm

/-- **Hidden cards stay hidden.** Where the piles of two boards are alike from outside, a viewer's
views of them are the same if and only if it is the same turn of the same player and the piles agree
on the cards that this viewer sees. Each pile of a view lists just these cards, from the top down,
as many as are counted, and never more than there are. So a viewer who sees nothing of some piles
does not see them shuffled or sorted, nor any of their cards replaced by as many others. -/
theorem view_hides (s : Session) (viewer : Seat) :
    (∀ s' : Session, Forall₂ Pile.SameOutside s.table.board.piles s'.table.board.piles →
      (s.view viewer = s'.view viewer ↔
        s.table.current = s'.table.current ∧ s.table.turn = s'.table.turn ∧
          Forall₂ (Pile.AgreesFor viewer) s.table.board.piles s'.table.board.piles)) ∧
      (∀ id p, s.table.board.pile? id = some p → ∃ v, (s.view viewer).piles[id.index]? = some v ∧
        v.id = .ofNat id.index ∧ v.Shows p viewer ∧
        s.visibleCount id viewer = .ok v.visible.length) ∧
      (∀ id, s.table.board.pile? id = none → (s.view viewer).piles[id.index]? = none ∧
        s.visibleCount id viewer = .error (.unknownComponent "cardpile" id.describe)) ∧
      ∀ ids : List PileId,
        (∀ id ∈ ids, ∀ p, s.table.board.pile? id = some p → p.visibleCount viewer = 0) →
        (∀ ranking,
          { s with table := ((Operation.shuffle ids).run ranking s.table).2 }.view viewer =
            s.view viewer) ∧
        (∀ ranking, ∀ id ∈ ids,
          { s with table := ((Operation.sort id).run ranking s.table).2 }.view viewer =
            s.view viewer) ∧
        ∀ board, s.table.board.ChangesOnly board ids →
          (∀ id ∈ ids, (board.cardsAt id).length = (s.table.board.cardsAt id).length) →
          { s with table := { s.table with board } }.view viewer = s.view viewer := by
  refine ⟨fun s' h => view_eq_iff h, fun id p hp => ?_, fun id hnone => ?_, fun ids hhidden => ?_⟩
  · have hshows := p.shows_view (.ofNat id.index) viewer
    refine ⟨_, by rw [getElem?_view, hp]; rfl, rfl, hshows, ?_⟩
    rw [hshows.length, visibleCount, hp]
    rfl
  · refine ⟨by rw [getElem?_view, hnone]; rfl, ?_⟩
    rw [visibleCount, hnone]
    rfl
  · refine ⟨fun ranking => ?_, fun ranking id hid => ?_, fun board hboard hlength => ?_⟩
    · obtain ⟨stream, board, heq, hboard⟩ := Operation.reorders_shuffleAll s.table ids
      rw [Operation.run, heq]
      exact view_of_hidden rfl rfl hboard.toChangesOnly (hboard.hidesChange hhidden)
    · have hboard := s.table.board.reorders_sort id ranking.compare
      refine view_of_hidden rfl rfl hboard.toChangesOnly (hboard.hidesChange fun id' hid' => ?_)
      rw [List.mem_singleton.1 hid']
      exact hhidden id hid
    · refine view_of_hidden rfl rfl hboard fun id hid p q hp hq => ⟨hhidden id hid p hp, ?_⟩
      have hcards := hlength id hid
      rwa [Board.cardsAt_of_pile? hp, Board.cardsAt_of_pile? hq] at hcards

/-- Two players; one of them holds cards that only she sees, and of the cards laid down nobody sees
but the last. -/
def holding (hand : List Card) (first : Card) : Session :=
  let board : Board := {
    piles := [
      ⟨"hand", ⟨0⟩, some ⟨1⟩, { owner := .player, visibility := .owner }, hand⟩,
      ⟨"discard", ⟨1⟩, none, { visible := some 1 }, [first, ⟨9, "c", none⟩]⟩]
    removed := [] }
  { leaving with
    table := .fresh board [.seated "ann" [], .seated "bob" [⟨0⟩]] .clockwise (.ofSeed 0) }

/-- Whoever does not hold the hand sees neither what is in it nor what lies below the last card, nor
that the hand is shuffled; who holds it does see a difference. -/
theorem holding_view_hides :
    let s := holding [⟨0, "a", none⟩, ⟨1, "b", none⟩] ⟨2, "a", none⟩
    let s' := holding [⟨3, "b", none⟩, ⟨1, "b", none⟩] ⟨4, "b", none⟩
    s.view ⟨0⟩ = s'.view ⟨0⟩ ∧ s.view ⟨1⟩ ≠ s'.view ⟨1⟩ ∧
      { s with table := ((Operation.shuffle [⟨0⟩]).run .flat s.table).2 }.view ⟨0⟩ = s.view ⟨0⟩ ∧
      ∃ v, (s.view ⟨0⟩).piles[1]? = some v ∧ s.visibleCount ⟨1⟩ ⟨0⟩ = .ok v.visible.length := by
  intro s s'
  have hsame : Forall₂ Pile.SameOutside s.table.board.piles s'.table.board.piles :=
    .cons ⟨rfl, rfl, rfl, rfl⟩ (.cons ⟨rfl, rfl, rfl, rfl⟩ .nil)
  obtain ⟨htwo, hshows, -, hhidden⟩ := s.view_hides ⟨0⟩
  obtain ⟨htwo', -⟩ := s.view_hides ⟨1⟩
  refine ⟨(htwo s' hsame).2 ⟨rfl, rfl, ?_⟩, fun h => ?_, ?_, ?_⟩
  · exact .cons (by decide) (.cons (by decide) .nil)
  · obtain ⟨-, -, hagree⟩ := (htwo' s' hsame).1 h
    cases hagree with
    | cons hhand => exact absurd (hhand 1 (by decide)) (by decide)
  · refine (hhidden [⟨0⟩] fun id hid p hp => ?_).1 .flat
    obtain rfl := List.mem_singleton.1 hid
    obtain rfl := Option.some.inj hp
    rfl
  · obtain ⟨v, hv, -, -, hcount⟩ := hshows ⟨1⟩ _ rfl
    exact ⟨v, hv, hcount⟩

end Session

end HouseRules
