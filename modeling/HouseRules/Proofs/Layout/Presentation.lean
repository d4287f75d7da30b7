import Mathlib.Data.List.Perm.Basic
import HouseRules.Proofs.Board.Instance
import HouseRules.Proofs.Layout

/-!
# The order of presentation

The layout section of a board document lists piles in the order in which they are presented, those
that all players share on one line and those of the players on another. Of several lines for one
owner the last one counts, even if it lists nothing. The declarations that it leaves out come after
those it names, in the order in which they are declared (`Layout.complete_eq`).

So every declaration has a place in the order of its owner. It has just one unless the line names it
twice, which nothing refuses, or there are more declarations than two bytes can number: the orders
are permutations of the declarations exactly if neither is the case (`Layout.presented_of_compile`).

Reference: the layout section in `BoardLayout.compile` (specification E2.2).
-/

namespace HouseRules.Layout

/-! ## What is written -/

/-- The word that lists the piles of an owner. -/
def listKeyword : PileOwner → String
  | .common => "common-piles"
  | .player => "player-piles"

/-- The lines of the layout section. -/
def sectionLines (doc : Document) : List Nat :=
  match doc.find? "board-layout" with
  | some opener =>
    (List.range ((doc.findFrom? "cardpile" (opener + 1)).getD doc.size)).drop (opener + 1)
  | none => []

/-- The names on the last of some lines that list the piles of an owner. -/
def lastListed (doc : Document) (owner : PileOwner) (lines : List Nat) : List String :=
  let last := lines.reverse.find? fun i => doc.startsWith i (listKeyword owner)
  (last.map fun i => Text.words (doc.paramsAt i)).getD []

/-- The names on the last line of the layout section that lists the piles of an owner. -/
def listedNames (doc : Document) (owner : PileOwner) : List String :=
  lastListed doc owner (sectionLines doc)

/-- The piles of an owner in the order of presentation. -/
def order (l : Layout) : PileOwner → List Slot
  | .common => l.commonPiles
  | .player => l.playerPiles

/-- The places of the declarations for an owner among all declarations. -/
def places (l : Layout) (owner : PileOwner) : List Nat :=
  (l.piles.zipIdx.filter fun x => x.1.policy.owner = owner).map (·.2)

variable {doc : Document} {l l' : Layout} {owner : PileOwner}

/-- The places of an owner are those of the declarations for this owner. -/
theorem mem_places {i : Nat} :
    i ∈ l.places owner ↔ ∃ d, l.piles[i]? = some d ∧ d.policy.owner = owner := by
  simp [places, List.mem_zipIdx_iff_getElem?]

/-- No declaration has two places. -/
theorem nodup_places : (l.places owner).Nodup := by
  have hall : (l.piles.zipIdx.map (·.2)).Nodup := by
    rw [List.zipIdx_map_snd]
    exact List.nodup_range'
  exact hall.sublist (List.filter_sublist.map _)

/-- The slots of an owner are the numbers of its places. -/
theorem slotsOf_eq (l : Layout) (owner : PileOwner) :
    l.slotsOf owner = (l.places owner).map Slot.ofNat := by
  rw [slotsOf, places, List.map_map, ← List.filterMap_eq_map, List.filterMap_filter]
  refine List.filterMap_congr fun x _ => ?_
  simp

/-! ## Reading lists -/

/-- Names stand for declared piles of an owner. -/
def Lists (l : Layout) (owner : PileOwner) (names : List String) (slots : List Slot) : Prop :=
  List.Forall₂ (fun name slot => l.slot? name = some slot ∧ l.owner? slot = some owner) names slots

/-- What names stand for depends on the declarations alone. -/
theorem Lists.congr {names : List String} {slots : List Slot} (h : l.Lists owner names slots)
    (hpiles : l'.piles = l.piles) : l'.Lists owner names slots :=
  h.imp fun _ _ hlisted => by simpa only [slot?, owner?, declaration?, hpiles] using hlisted

/-- A list names declared piles of its owner. -/
theorem readSlots_ok {names : String} {slots : List Slot} :
    readSlots doc l names owner = .ok slots ↔ l.Lists owner (Text.words names) slots := by
  rw [readSlots, mapM_ok]
  simp only [bind_ok, orFail_eq_ok, guard_ok, pure_ok, bne_iff_ne, ne_eq, Decidable.not_not]
  constructor
  · refine List.Forall₂.imp fun name slot => ?_
    rintro ⟨_, hslot, howner, rfl⟩
    exact ⟨hslot, howner⟩
  · exact List.Forall₂.imp fun name slot h => ⟨slot, h.1, h.2, rfl⟩

/-- A line sets the order that it lists and leaves the other one. -/
theorem readSectionLine_ok {i : Nat} (h : readSectionLine doc l i = .ok l') :
    l'.piles = l.piles ∧ ∀ owner,
      if doc.startsWith i (listKeyword owner) then
        l.Lists owner (Text.words (doc.paramsAt i)) (l'.order owner)
      else l'.order owner = l.order owner := by
  unfold readSectionLine at h
  unfold Document.startsWith
  cases hline : doc.lines[i]? with
  | none =>
    have hempty : Text.firstWord "" = "" := by decide +kernel
    simp [hline, hempty] at h
  | some line =>
    simp only [hline, Option.getD_some] at h
    split at h
    case h_4 hword | h_5 hword =>
      obtain ⟨slots, hslots, h⟩ := bind_ok.1 h
      cases pure_ok.1 h
      refine ⟨rfl, fun owner => ?_⟩
      cases owner <;> simp [listKeyword, hword, order, readSlots_ok.1 hslots]
    case h_6 => cases h
    all_goals
      rename_i hword
      cases pure_ok.1 h
      refine ⟨rfl, fun owner => ?_⟩
      cases owner <;> simp [listKeyword, hword, order]

/-- The last of several lines with a list counts. -/
theorem lastListed_append (doc : Document) (owner : PileOwner) (lines : List Nat) (i : Nat) :
    lastListed doc owner (lines ++ [i]) =
      if doc.startsWith i (listKeyword owner) then Text.words (doc.paramsAt i)
      else lastListed doc owner lines := by
  simp only [lastListed, List.reverse_append, List.reverse_singleton, List.singleton_append,
    List.find?_cons]
  cases doc.startsWith i (listKeyword owner) <;> rfl

/-- Reading lines sets each order to what the last list among them names. -/
theorem foldlM_readSectionLine {lines : List Nat} (hempty : ∀ owner, l.order owner = [])
    (h : lines.foldlM (readSectionLine doc) l = .ok l') :
    l'.piles = l.piles ∧
      ∀ owner, l.Lists owner (lastListed doc owner lines) (l'.order owner) := by
  induction lines using List.reverseRecOn generalizing l' with
  | nil =>
    cases pure_ok.1 h
    exact ⟨rfl, fun owner => by rw [hempty]; exact .nil⟩
  | append_singleton lines i ih =>
    rw [List.foldlM_append, bind_ok] at h
    obtain ⟨l₁, h₁, h⟩ := h
    simp only [List.foldlM_cons, List.foldlM_nil, bind_pure] at h
    obtain ⟨hpiles, horder⟩ := ih h₁
    obtain ⟨hpiles', horder'⟩ := readSectionLine_ok h
    refine ⟨hpiles'.trans hpiles, fun owner => ?_⟩
    have hlast := horder' owner
    rw [lastListed_append]
    split at hlast
    next hlists =>
      rw [if_pos hlists]
      exact hlast.congr hpiles.symm
    next hlists =>
      rw [if_neg hlists, hlast]
      exact horder owner

/-- The orders of a layout are what its section lists, completed. -/
theorem order_of_compile (h : compile doc = .ok l) (owner : PileOwner) :
    ∃ listed, l.Lists owner (listedNames doc owner) listed ∧
      l.order owner = complete listed (l.slotsOf owner) := by
  simp only [compile, guard_ok, bind_ok] at h
  obtain ⟨-, piles, -, h⟩ := h
  let declared : Layout := ⟨doc.name, piles, none, none, none, [], []⟩
  have hread : ∃ read, (sectionLines doc).foldlM (readSectionLine doc) declared = .ok read ∧
      l = { read with
        commonPiles := complete read.commonPiles (read.slotsOf .common)
        playerPiles := complete read.playerPiles (read.slotsOf .player) } := by
    unfold sectionLines
    cases hsection : doc.find? "board-layout" <;> rw [hsection] at h <;>
      obtain ⟨read, hread, h⟩ := bind_ok.1 h <;> exact ⟨read, hread, (pure_ok.1 h).symm⟩
  obtain ⟨read, hread, rfl⟩ := hread
  obtain ⟨hpiles, horder⟩ := foldlM_readSectionLine (fun owner => by cases owner <;> rfl) hread
  exact ⟨read.order owner, (horder owner).congr hpiles, by cases owner <;> rfl⟩

/-! ## Completing an order -/

/-- What is left out comes behind what is listed, once each and in its own order. -/
theorem exists_complete (listed slots : List Slot) :
    ∃ rest, complete listed slots = listed ++ rest ∧ rest.Sublist slots ∧ rest.Nodup ∧
      ∀ s, s ∈ rest ↔ s ∈ slots ∧ s ∉ listed := by
  induction slots generalizing listed with
  | nil => exact ⟨[], (List.append_nil _).symm, .slnil, .nil, by simp⟩
  | cons slot slots ih =>
    have hstep : complete listed (slot :: slots) =
        complete (if listed.contains slot then listed else listed ++ [slot]) slots := rfl
    rw [hstep]
    split
    next hlisted =>
      obtain ⟨rest, heq, hsub, hnodup, hmem⟩ := ih listed
      refine ⟨rest, heq, hsub.cons slot, hnodup, fun s => ?_⟩
      rw [hmem, List.mem_cons]
      have hlisted : slot ∈ listed := by simpa using hlisted
      exact ⟨fun h => ⟨.inr h.1, h.2⟩, fun h => ⟨h.1.resolve_left (h.2 <| · ▸ hlisted), h.2⟩⟩
    next hlisted =>
      obtain ⟨rest, heq, hsub, hnodup, hmem⟩ := ih (listed ++ [slot])
      have hlisted : slot ∉ listed := by simpa using hlisted
      refine ⟨slot :: rest, by rw [heq, List.append_assoc, List.singleton_append],
        hsub.cons_cons slot, List.nodup_cons.2 ⟨?_, hnodup⟩, fun s => ?_⟩
      · rw [hmem]
        simp
      · rw [List.mem_cons, hmem, List.mem_append, List.mem_singleton, List.mem_cons, not_or]
        constructor
        · rintro (rfl | ⟨hs, hs', -⟩)
          · exact ⟨.inl rfl, hlisted⟩
          · exact ⟨.inr hs, hs'⟩
        · rintro ⟨rfl | hs, hs'⟩
          · exact .inl rfl
          · by_cases heq : s = slot
            · exact .inl heq
            · exact .inr ⟨hs, hs', heq⟩

/-! ## Numbers of two bytes -/

/-- As long as numbers do not wrap, the slots of an owner are its places. -/
theorem map_index_slotsOf (hcount : l.piles.length ≤ 65536) :
    (l.slotsOf owner).map (·.index) = l.places owner := by
  rw [slotsOf_eq, List.map_map]
  refine (List.map_congr_left fun i hi => ?_).trans (List.map_id _)
  obtain ⟨d, hd, -⟩ := mem_places.1 hi
  exact Slot.ofNat_index (Nat.lt_of_lt_of_le (List.getElem?_eq_some_iff.1 hd).1 hcount)

/-- A slot is a number of two bytes. -/
theorem index_lt_of_mem_slotsOf {s : Slot} (h : s ∈ l.slotsOf owner) : s.index < 65536 := by
  rw [slotsOf_eq] at h
  obtain ⟨i, -, rfl⟩ := List.mem_map.1 h
  exact Nat.mod_lt i (by decide)

/-- As long as numbers do not wrap, the slot of a name has this name. -/
theorem nameOf_of_slot? (hcount : l.piles.length ≤ 65536) {name : String} {s : Slot}
    (h : l.slot? name = some s) : l.nameOf s = name := by
  obtain ⟨i, hi, rfl⟩ := Option.map_eq_some_iff.1 h
  obtain ⟨hlt, hname, -⟩ := List.findIdx?_eq_some_iff_getElem.1 hi
  rw [nameOf, declaration?, Slot.ofNat_index (Nat.lt_of_lt_of_le hlt hcount),
    List.getElem?_eq_getElem hlt]
  exact beq_iff_eq.1 hname

namespace Lists

variable {names : List String} {listed : List Slot}

/-- What is listed has a number of two bytes. -/
theorem index_lt (h : l.Lists owner names listed) {s : Slot} (hs : s ∈ listed) :
    s.index < 65536 := by
  obtain ⟨name, -, hname, -⟩ := exists_of_mem_forall₂ h hs
  exact (declares_of_slot? hname).2

/-- What is listed is declared for the owner. -/
theorem subset (h : l.Lists owner names listed) : listed ⊆ l.slotsOf owner := by
  intro s hs
  obtain ⟨name, -, -, howner⟩ := exists_of_mem_forall₂ h hs
  obtain ⟨d, hd, hdowner⟩ := Option.map_eq_some_iff.1 howner
  rw [slotsOf_eq]
  refine List.mem_map.2 ⟨s.index, mem_places.2 ⟨d, hd, hdowner⟩, ?_⟩
  cases s
  exact congrArg Slot.mk (Nat.mod_eq_of_lt (h.index_lt hs))

/-- Something is listed twice exactly if its name is. -/
theorem nodup_iff (h : l.Lists owner names listed) (hcount : l.piles.length ≤ 65536) :
    listed.Nodup ↔ names.Nodup := by
  constructor
  · intro hlisted
    have hslots : names.map l.slot? = listed.map some :=
      forall₂_eq_iff.1 (h.imp fun _ _ hname => hname.1)
    refine .of_map l.slot? ?_
    rw [hslots]
    exact hlisted.map (Option.some_injective _)
  · intro hnames
    have hname : names.map id = listed.map l.nameOf :=
      forall₂_eq_iff.1 (h.imp fun _ _ hname => (nameOf_of_slot? hcount hname.1).symm)
    rw [List.map_id] at hname
    exact .of_map l.nameOf (hname ▸ hnames)

end Lists

/-! ## The orders of a layout -/

/-- A layout presents the piles of an owner: it lists these names, and the other declarations follow
in their own order. -/
def Presents (l : Layout) (owner : PileOwner) (names : List String) : Prop :=
  ∃ listed rest, l.order owner = listed ++ rest ∧ l.Lists owner names listed ∧
    rest.Sublist (l.slotsOf owner) ∧ rest.Nodup ∧
    ∀ s, s ∈ rest ↔ s ∈ l.slotsOf owner ∧ s ∉ listed

/-- A layout that is compiled presents the piles of each owner as its section lists them. -/
theorem presents_of_compile (h : compile doc = .ok l) (owner : PileOwner) :
    l.Presents owner (listedNames doc owner) := by
  obtain ⟨listed, hlisted, horder⟩ := order_of_compile h owner
  obtain ⟨rest, hrest, hspec⟩ := exists_complete listed (l.slotsOf owner)
  exact ⟨listed, rest, horder.trans hrest, hlisted, hspec⟩

namespace Presents

variable {names : List String}

/-- Exactly what is declared has a place. -/
theorem mem_order (h : l.Presents owner names) {s : Slot} :
    s ∈ l.order owner ↔ s ∈ l.slotsOf owner := by
  obtain ⟨listed, rest, horder, hlisted, -, -, hmem⟩ := h
  rw [horder, List.mem_append, hmem]
  constructor
  · rintro (hs | ⟨hs, -⟩)
    · exact hlisted.subset hs
    · exact hs
  · intro hs
    by_cases hs' : s ∈ listed
    · exact .inl hs'
    · exact .inr ⟨hs, hs'⟩

/-- Nothing has two places exactly if no name is listed twice. -/
theorem nodup_order_iff (h : l.Presents owner names) (hcount : l.piles.length ≤ 65536) :
    (l.order owner).Nodup ↔ names.Nodup := by
  obtain ⟨listed, rest, horder, hlisted, -, hrest, hmem⟩ := h
  rw [horder, List.nodup_append', hlisted.nodup_iff hcount]
  refine ⟨And.left, fun hnames => ⟨hnames, hrest, fun s hs hs' => ?_⟩⟩
  exact ((hmem s).1 hs').2 hs

/-- Every declaration of the owner has just one place exactly if no name is listed twice. -/
theorem perm_places_iff (h : l.Presents owner names) (hcount : l.piles.length ≤ 65536) :
    ((l.order owner).map (·.index)).Perm (l.places owner) ↔ names.Nodup := by
  rw [← h.nodup_order_iff hcount]
  constructor
  · intro hperm
    exact .of_map _ (hperm.nodup_iff.2 nodup_places)
  · intro horder
    have hslots : (l.slotsOf owner).Nodup :=
      .of_map (·.index) ((map_index_slotsOf hcount).symm ▸ nodup_places)
    rw [← map_index_slotsOf hcount]
    exact ((List.perm_ext_iff_of_nodup horder hslots).2 fun _ => h.mem_order).map _

/-- Past two bytes there is a declaration without a place. -/
theorem length_le (h : ∀ owner, ∃ names, l.Presents owner names)
    (hperm : ∀ owner, ((l.order owner).map (·.index)).Perm (l.places owner)) :
    l.piles.length ≤ 65536 := by
  by_contra hmany
  have hlt : 65536 < l.piles.length := Nat.lt_of_not_le hmany
  let owner := l.piles[65536].policy.owner
  have hplace : 65536 ∈ l.places owner :=
    mem_places.2 ⟨_, List.getElem?_eq_getElem hlt, rfl⟩
  obtain ⟨s, hs, hindex⟩ := List.mem_map.1 ((hperm owner).mem_iff.2 hplace)
  obtain ⟨names, hpresents⟩ := h owner
  exact absurd (index_lt_of_mem_slotsOf (hpresents.mem_order.1 hs)) (hindex ▸ Nat.lt_irrefl _)

end Presents

/-- **The order of presentation.** In the layout of a board document the piles of either owner are
presented in the order of the last list of them, if there is one, and those that it leaves out
after it, in the order of declaration. Both orders are permutations of the declarations exactly if
two bytes can number these and no list that counts names a pile twice. -/
theorem presented_of_compile (h : compile doc = .ok l) :
    (∀ owner, l.Presents owner (listedNames doc owner)) ∧
      ((∀ owner, ((l.order owner).map (·.index)).Perm (l.places owner)) ↔
        l.piles.length ≤ 65536 ∧ ∀ owner, (listedNames doc owner).Nodup) := by
  have hpresents := presents_of_compile h
  refine ⟨hpresents, fun hperm => ?_, fun ⟨hcount, hnodup⟩ owner => ?_⟩
  · have hcount := Presents.length_le (fun owner => ⟨_, hpresents owner⟩) hperm
    exact ⟨hcount, fun owner => ((hpresents owner).perm_places_iff hcount).1 (hperm owner)⟩
  · exact ((hpresents owner).perm_places_iff hcount).2 (hnodup owner)

/-- A board on which one of two piles is listed, once or twice. -/
def listingBoard (names : String) : Document where
  kind := .board
  name := "listing"
  lines := ["board-layout", "common-piles" ++ " " ++ names, "cardpile draw", "cardpile discard"]

/-- Listed once, the pile comes before the other one. Listed twice, it is presented twice. -/
theorem listing_presented :
    (∃ l, compile (listingBoard "discard") = .ok l ∧ l.commonPiles = [⟨1⟩, ⟨0⟩] ∧
      ∀ owner, ((l.order owner).map (·.index)).Perm (l.places owner)) ∧
    ∃ l, compile (listingBoard "discard discard") = .ok l ∧ l.commonPiles = [⟨1⟩, ⟨1⟩, ⟨0⟩] ∧
      ¬ ∀ owner, ((l.order owner).map (·.index)).Perm (l.places owner) := by
  constructor
  · have horder : (compile (listingBoard "discard")).map
        (fun l => (l.commonPiles, l.piles.length)) = .ok ([⟨1⟩, ⟨0⟩], 2) := by decide +kernel
    obtain ⟨l, h, horder⟩ := map_ok.1 horder
    obtain ⟨horder, hlength⟩ := Prod.mk.inj horder
    refine ⟨l, h, horder, (presented_of_compile h).2.2 ⟨by omega, fun owner => ?_⟩⟩
    cases owner <;> decide +kernel
  · have horder : (compile (listingBoard "discard discard")).map (·.commonPiles) =
        .ok [⟨1⟩, ⟨1⟩, ⟨0⟩] := by decide +kernel
    obtain ⟨l, h, horder⟩ := map_ok.1 horder
    refine ⟨l, h, horder, fun hperm => ?_⟩
    exact absurd (((presented_of_compile h).2.1 hperm).2 .common) (by decide +kernel)

end HouseRules.Layout
