import HouseRules.Game.Reader
import HouseRules.Proofs.Board.Instance
import HouseRules.Proofs.Graph.Closed

/-!
# Games that documents describe

What play relies on is checked when a game is compiled: the graph is closed, there is a phase to
start in, every pile that gets cards is declared, and the players can be numbered
(`Game.wellFormed_of_ofDocuments`). So is that what a game says of its players and its deal makes
sense: there is a number of players that it admits, and the plan for dealing fits the layout
(`Game.consistent_of_ofDocuments`).
-/

namespace HouseRules

/-! ## Plans for dealing -/

namespace DealPlan

/-- A plan fits a layout: every pile that it lists is declared for the owner under which it is
listed, and at most one pile gets everything left. -/
structure Fits (p : DealPlan) (l : Layout) : Prop where
  players : ∀ pair ∈ p.playerPiles, l.owner? pair.slot = some .player
  common : ∀ pair ∈ p.commonPiles, l.owner? pair.slot = some .common
  all : p.pairs.countP (·.count == .all) ≤ 1

variable {block : Document} {l : Layout} {keyword : String} {owner : PileOwner}

/-- A pair that is read is of a pile that the layout declares, for the owner of the keyword. -/
theorem readPair_ok {name count : String} {pair : DealPair}
    (h : readPair block l keyword owner name count = .ok pair) :
    l.Declares pair.slot ∧ l.owner? pair.slot = some owner := by
  simp only [readPair, bind_ok, guard_ok, orFail_eq_ok, pure_ok] at h
  obtain ⟨slot, hslot, howner, _, _, rfl⟩ := h
  exact ⟨Layout.declares_of_slot? hslot, by simpa using howner⟩

/-- Every pair of a line is read from two words of it. -/
theorem exists_of_mem_readPairs {words : List String} {pairs : List DealPair}
    (h : readPairs block l keyword owner words = .ok pairs) :
    ∀ pair ∈ pairs, ∃ name count, readPair block l keyword owner name count = .ok pair := by
  induction words using readPairs.induct generalizing pairs with
  | case1 name count rest ih =>
    simp only [readPairs, bind_ok, pure_ok] at h
    obtain ⟨pair, hpair, later, hlater, rfl⟩ := h
    intro p hp
    rcases List.mem_cons.1 hp with rfl | hp
    · exact ⟨name, count, hpair⟩
    · exact ih hlater p hp
  | case2 words hwords =>
    rw [readPairs] at h
    · cases h
      exact nofun
    · exact hwords

/-- All pairs that are read from lines are of declared piles, for the owner of the keyword. -/
theorem readLines_ok {pairs : List DealPair} (h : readLines block l keyword owner = .ok pairs) :
    ∀ pair ∈ pairs, l.Declares pair.slot ∧ l.owner? pair.slot = some owner := by
  simp only [readLines, bind_ok, pure_ok] at h
  obtain ⟨lines, hlines, rfl⟩ := h
  intro pair hpair
  obtain ⟨line, hline, hmem⟩ := List.mem_flatten.1 hpair
  obtain ⟨index, -, hread⟩ := exists_of_mem_mapM hlines hline
  simp only [readLine, bind_ok, guard_ok] at hread
  obtain ⟨text, -, -, hpairs⟩ := hread
  obtain ⟨name, count, hread⟩ := exists_of_mem_readPairs hpairs pair hmem
  exact readPair_ok hread

/-- A plan that has been compiled deals to piles of the layout, and fits it. -/
theorem compile_ok {plan : DealPlan} (h : compile block l = .ok plan) :
    (∀ pair ∈ plan.pairs, l.Declares pair.slot) ∧ plan.Fits l := by
  simp only [compile, bind_ok, guard_ok, pure_ok] at h
  obtain ⟨_, -, _, -, _, -, players, hplayers, common, hcommon, hall, rfl⟩ := h
  refine ⟨fun pair hpair => ?_, fun pair hpair => (readLines_ok hplayers pair hpair).2,
    fun pair hpair => (readLines_ok hcommon pair hpair).2, Nat.not_lt.1 hall⟩
  rcases List.mem_append.1 hpair with hpair | hpair
  · exact (readLines_ok hplayers pair hpair).1
  · exact (readLines_ok hcommon pair hpair).1

end DealPlan

namespace Game

/-! ## Games -/

/-- A game that can be played: what its parts refer to is there, and a number of players that it
admits can sit down. -/
structure WellFormed (g : Game) : Prop where
  closed : g.graph.Closed g.layout
  startPhase : g.startPhase.index < g.graph.phases.length
  dealt : ∀ pair ∈ g.deal.pairs, g.layout.Declares pair.slot
  least : 0 < g.leastPlayers
  most : g.mostPlayers ≤ maxPlayers

variable {rules : Document}

/-- The numbers of players that are read are a range within the limit. -/
theorem readPlayers_ok {least most : Nat} (h : readPlayers rules = .ok (least, most)) :
    0 < least ∧ least ≤ most ∧ most ≤ maxPlayers := by
  simp only [readPlayers, bind_ok] at h
  obtain ⟨_, -, counts, -, h⟩ := h
  have hcheck : ¬ (least == 0 || least > most || most > maxPlayers) = true := by
    split at h <;> obtain ⟨pair, hpair, h⟩ := bind_ok.1 h
    · obtain ⟨hcheck, heq⟩ := guard_ok.1 h
      cases heq
      exact hcheck
    · obtain ⟨hcheck, heq⟩ := guard_ok.1 h
      cases heq
      exact hcheck
    · cases hpair
  simp only [Bool.or_eq_true, beq_iff_eq, decide_eq_true_eq, not_or, Nat.not_lt] at hcheck
  omega

/-- A plan that is read speaks of declared piles only, each for its owner. -/
theorem readDeal_ok {l : Layout} {plan : DealPlan} (h : readDeal rules l = .ok plan) :
    (∀ pair ∈ plan.pairs, l.Declares pair.slot) ∧ plan.Fits l := by
  unfold readDeal at h
  split at h
  · obtain ⟨block, -, hplan⟩ := bind_ok.1 h
    exact DealPlan.compile_ok hplan
  · cases h
    exact ⟨nofun, nofun, nofun, Nat.zero_le 1⟩

/-- The phase that the rules start with is one of the graph. -/
theorem readStartPhase_lt {graph : Graph} {id : PhaseId}
    (h : readStartPhase rules graph = .ok id) : id.index < graph.phases.length := by
  unfold readStartPhase at h
  split at h
  · obtain ⟨i, hi, rfl⟩ := Option.map_eq_some_iff.1 (orFail_eq_ok.1 h)
    exact (List.findIdx?_eq_some_iff_getElem.1 hi).1
  · split at h
    · cases h
    next hphases =>
      cases h
      exact List.length_pos_of_ne_nil fun hnil => hphases (by rw [hnil]; rfl)

/-- A game compiled from documents can be played. -/
theorem wellFormed_of_ofDocuments {deck board : Document} {brief : Option Document} {g : Game}
    (h : ofDocuments rules deck board brief = .ok g) : g.WellFormed := by
  simp only [ofDocuments, bind_ok, pure_ok] at h
  obtain ⟨deck, -, layout, -, ⟨least, most⟩, hplayers, ranking, -, direction, -, deal, hdeal, graph,
    hgraph, startPhase, hstart, rfl⟩ := h
  obtain ⟨hleast, -, hmost⟩ := readPlayers_ok hplayers
  exact ⟨Graph.closed_of_compile hgraph, readStartPhase_lt hstart, (readDeal_ok hdeal).1,
    hleast, hmost⟩

/-- A game that says of its players, its first phase and its deal what its other parts bear out. -/
structure Consistent (g : Game) : Prop where
  least : 1 ≤ g.leastPlayers
  ordered : g.leastPlayers ≤ g.mostPlayers
  most : g.mostPlayers ≤ 255
  startPhase : g.startPhase.index < g.graph.phases.length
  deal : g.deal.Fits g.layout

/-- A game compiled from documents is consistent. -/
theorem consistent_of_ofDocuments {deck board : Document} {brief : Option Document} {g : Game}
    (h : ofDocuments rules deck board brief = .ok g) : g.Consistent := by
  simp only [ofDocuments, bind_ok, pure_ok] at h
  obtain ⟨deck, -, layout, -, ⟨least, most⟩, hplayers, ranking, -, direction, -, deal, hdeal, graph,
    -, startPhase, hstart, rfl⟩ := h
  obtain ⟨hleast, hordered, hmost⟩ := readPlayers_ok hplayers
  exact ⟨hleast, hordered, hmost, readStartPhase_lt hstart, (readDeal_ok hdeal).2⟩

/-- A game admits as many players as its rules say. -/
theorem checkPlayerCount_ok {g : Game} {count : Nat} :
    g.checkPlayerCount count = .ok () ↔ g.leastPlayers ≤ count ∧ count ≤ g.mostPlayers := by
  unfold checkPlayerCount
  split
  next hbounds =>
    refine ⟨nofun, fun h => ?_⟩
    simp only [Bool.or_eq_true, decide_eq_true_eq] at hbounds
    omega
  next hbounds =>
    simp only [Bool.or_eq_true, decide_eq_true_eq, not_or, Nat.not_lt] at hbounds
    exact ⟨fun _ => hbounds, fun _ => rfl⟩

/-- The number of players admitted can be numbered. -/
theorem WellFormed.count_of_check {g : Game} (h : g.WellFormed) {count : Nat}
    (hcheck : g.checkPlayerCount count = .ok ()) : 0 < count ∧ count ≤ 255 := by
  obtain ⟨hleast, hmost⟩ := checkPlayerCount_ok.1 hcheck
  exact ⟨Nat.lt_of_lt_of_le h.least hleast, Nat.le_trans hmost h.most⟩

end Game

end HouseRules
