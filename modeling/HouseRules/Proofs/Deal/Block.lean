import HouseRules.Deal.Writer
import HouseRules.Proofs.Document.Normal
import HouseRules.Proofs.Game
import HouseRules.Proofs.Scope
import HouseRules.Proofs.Text.Numeral

/-!
# Deal blocks written and read

What a deal block says is told apart from how it is read (`DealPlan.Told`): each setting by the
first of its lines, and the piles of an owner by the words of all lines of its keyword, in pairs
(`DealPlan.Tells`). Reading succeeds just with what the block says (`DealPlan.compile_iff`). The
lines that are written for a plan say the plan, in whatever order the keywords come
(`DealPlan.told_of_written`), and they are in normal form, so they may be read from a text
(`DealPlan.isNormal_of_mem_blockLines`).

The other way round, the words `all` of a block are as many as its pairs that get everything left
(`DealPlan.Told.count_all`), so a block with two of them is refused.

Reference: `DealConfig.compile` (specification E2.3).
-/

namespace HouseRules

/-- Whether a number of cards, if it is given, has 32 bits. -/
def DealCount.isShort : DealCount → Bool
  | .exactly n => n < UInt32.size
  | .all => true

namespace DealPlan

variable {block : Document} {l : Layout} {keyword : String} {owner : PileOwner}
  {words : List String} {pairs : List DealPair}

/-! ## What a block says -/

/-- What words say in pairs: the name of a pile of the owner, and its count. -/
inductive Tells (l : Layout) (owner : PileOwner) : List String → List DealPair → Prop
  | nil : Tells l owner [] []
  | pair {name count : String} {pair : DealPair} {words : List String} {pairs : List DealPair}
      (hslot : l.slot? name = some pair.slot) (howner : l.owner? pair.slot = some owner)
      (hcount : readCount? count = some pair.count) (hrest : Tells l owner words pairs) :
      Tells l owner (name :: count :: words) (pair :: pairs)

/-- What a line says: one pair or more behind its keyword. -/
def LineTells (l : Layout) (owner : PileOwner) (line : String) (pairs : List DealPair) : Prop :=
  pairs ≠ [] ∧ Tells l owner (Text.words (Text.afterFirstWord line)) pairs

/-- What the lines of a keyword say, one after the other. -/
def LinesTell (l : Layout) (owner : PileOwner) (lines : List String) (pairs : List DealPair) :
    Prop :=
  ∃ parts, List.Forall₂ (LineTells l owner) lines parts ∧ parts.flatten = pairs

/-- What a block says: a plan in which at most one pile gets everything left. -/
structure Told (block : Document) (l : Layout) (plan : DealPlan) : Prop where
  passes : readSetting block "shuffle" 1 Text.shortCount? = .ok plan.passes
  direction : readSetting block "direction" .clockwise Direction.ofWord? = .ok plan.direction
  collate : readSetting block "collate" false readCollate? = .ok plan.collate
  players : LinesTell l .player (block.linesOf "player-piles") plan.playerPiles
  common : LinesTell l .common (block.linesOf "common-piles") plan.commonPiles
  all : plan.pairs.countP (·.count == .all) ≤ 1

/-- Only no words say no pairs. -/
theorem Tells.eq_nil_iff (h : Tells l owner words pairs) : words = [] ↔ pairs = [] := by
  cases h <;> simp

/-- A pair is read from a name and a count just when they tell of a pile of the owner. -/
theorem readPair_iff {name count : String} {pair : DealPair} :
    readPair block l keyword owner name count = .ok pair ↔
      l.slot? name = some pair.slot ∧ l.owner? pair.slot = some owner ∧
        readCount? count = some pair.count := by
  simp only [readPair, requireValue, bind_ok, guard_ok, orFail_eq_ok, pure_ok]
  constructor
  · rintro ⟨slot, hslot, howner, number, hnumber, rfl⟩
    exact ⟨hslot, by simpa using howner, hnumber⟩
  · rintro ⟨hslot, howner, hnumber⟩
    exact ⟨pair.slot, hslot, by simpa using howner, pair.count, hnumber, rfl⟩

/-- An even number of words is read as pairs just when the words say these pairs. -/
theorem readPairs_iff : words.length % 2 = 0 ∧ readPairs block l keyword owner words = .ok pairs ↔
    Tells l owner words pairs := by
  induction words using readPairs.induct generalizing pairs with
  | case1 name count rest ih =>
    simp only [readPairs, bind_ok, pure_ok, readPair_iff]
    rw [List.length_cons, List.length_cons, Nat.add_assoc, Nat.add_mod_right]
    constructor
    · rintro ⟨heven, pair, ⟨hslot, howner, hcount⟩, later, hlater, rfl⟩
      exact .pair hslot howner hcount (ih.1 ⟨heven, hlater⟩)
    · rintro (_ | ⟨hslot, howner, hcount, hrest⟩)
      obtain ⟨heven, hlater⟩ := ih.2 hrest
      exact ⟨heven, _, ⟨hslot, howner, hcount⟩, _, hlater, rfl⟩
  | case2 words hwords =>
    rw [readPairs.eq_2 _ _ _ _ _ hwords]
    obtain _ | ⟨word, _ | ⟨count, rest⟩⟩ := words
    · constructor
      · rintro ⟨-, ⟨⟩⟩
        exact .nil
      · rintro ⟨⟩
        exact ⟨rfl, rfl⟩
    · constructor
      · rintro ⟨heven, -⟩
        exact absurd heven Nat.one_ne_zero
      · rintro ⟨⟩
    · exact absurd rfl (hwords word count rest)

/-- A line is read as pairs just when it says one pair or more, these. -/
theorem readLine_iff {index : Nat} {line : String} (hline : block.lines[index]? = some line) :
    readLine block l keyword owner index = .ok pairs ↔ LineTells l owner line pairs := by
  have hparams : block.paramsAt index = Text.afterFirstWord line := by
    rw [Document.paramsAt, hline]
  simp only [readLine, bind_ok, guard_ok, Document.requireParamsAt_ok, hparams]
  constructor
  · rintro ⟨_, ⟨rfl, hne⟩, heven, hread⟩
    have htells := readPairs_iff.1 ⟨by simpa using heven, hread⟩
    refine ⟨fun hnil => hne ?_, htells⟩
    exact Text.afterFirstWord_eq_empty_iff_words.2 (htells.eq_nil_iff.2 hnil)
  · rintro ⟨hne, htells⟩
    obtain ⟨heven, hread⟩ := readPairs_iff.2 htells
    refine ⟨_, ⟨rfl, fun hempty => hne ?_⟩, by simpa using heven, hread⟩
    exact htells.eq_nil_iff.1 (Text.afterFirstWord_eq_empty_iff_words.1 hempty)

/-- The lines of a keyword are read as pairs just when they say these pairs. -/
theorem readLines_iff : readLines block l keyword owner = .ok pairs ↔
    LinesTell l owner (block.linesOf keyword) pairs := by
  simp only [readLines, bind_ok, pure_ok, mapM_ok, LinesTell]
  refine exists_congr fun parts => and_congr_left fun _ => ?_
  exact forall₂_congr_left (block.forall₂_positions keyword) fun i line part hline =>
    readLine_iff hline

/-- A block is compiled to a plan just if it says the plan. -/
theorem compile_iff {plan : DealPlan} : compile block l = .ok plan ↔ Told block l plan := by
  simp only [compile, bind_ok, guard_ok, pure_ok, readLines_iff, Nat.not_lt]
  constructor
  · rintro ⟨passes, hpasses, direction, hdirection, collate, hcollate, players, hplayers, common,
      hcommon, hall, rfl⟩
    exact ⟨hpasses, hdirection, hcollate, hplayers, hcommon, hall⟩
  · rintro ⟨hpasses, hdirection, hcollate, hplayers, hcommon, hall⟩
    exact ⟨_, hpasses, _, hdirection, _, hcollate, _, hplayers, _, hcommon, hall, rfl⟩

/-! ## Everything left -/

/-- The counts among the words of a line: every second word. -/
def countWords : List String → List String
  | _ :: count :: rest => count :: countWords rest
  | _ => []

/-- How many of the lines' counts ask for everything left. -/
def allWords (lines : List String) : Nat :=
  (lines.map fun line => (countWords (Text.words (Text.afterFirstWord line))).count "all").sum

/-- Only the word `all` stands for everything left. -/
theorem readCount?_all_iff {word : String} : readCount? word = some .all ↔ word = "all" := by
  unfold readCount?
  split
  next h => simpa using h
  next h =>
    simp only [beq_iff_eq] at h
    simp [h]

/-- Among counts, the words `all` are as many as the pairs that get everything left. -/
theorem Tells.count_all (h : Tells l owner words pairs) :
    (countWords words).count "all" = pairs.countP (·.count == .all) := by
  induction h with
  | nil => rfl
  | @pair name count pair words pairs _ _ hcount _ ih =>
    have hiff : (count == "all") = (pair.count == .all) := by
      rw [Bool.eq_iff_iff, beq_iff_eq, beq_iff_eq, ← readCount?_all_iff, hcount, Option.some_inj]
    rw [countWords, List.count_cons, List.countP_cons, ih, hiff]

/-- In all lines of a keyword, the words `all` are as many as the pairs that get everything left. -/
theorem LinesTell.count_all {lines : List String} (h : LinesTell l owner lines pairs) :
    allWords lines = pairs.countP (·.count == .all) := by
  obtain ⟨parts, hparts, rfl⟩ := h
  induction hparts with
  | nil => rfl
  | cons hline _ ih =>
    rw [allWords, List.map_cons, List.sum_cons, hline.2.count_all, List.flatten_cons,
      List.countP_append, ← ih, allWords]

/-- The words `all` of a block are its pairs that get everything left. -/
theorem Told.count_all {plan : DealPlan} (h : Told block l plan) :
    allWords (block.linesOf "player-piles") + allWords (block.linesOf "common-piles") =
      plan.pairs.countP (·.count == .all) := by
  rw [h.players.count_all, h.common.count_all, pairs, List.countP_append]

/-! ## The lines for a plan -/

/-- A plan can be written for a layout: it fits the layout, and its numbers have 32 bits. -/
structure Writable (p : DealPlan) (l : Layout) : Prop where
  fits : p.Fits l
  passes_lt : p.passes < UInt32.size
  isShort : ∀ pair ∈ p.pairs, pair.count.isShort = true

/-- The lists of a plan are parted into lines that list something. -/
structure Parted (p : DealPlan) (playerLines commonLines : List (List DealPair)) : Prop where
  players : playerLines.flatten = p.playerPiles
  common : commonLines.flatten = p.commonPiles
  ne_nil : ∀ pairs ∈ playerLines ++ commonLines, pairs ≠ []

/-- The keywords and words of the lines for a plan. -/
def blockWords (l : Layout) (p : DealPlan) (playerLines commonLines : List (List DealPair)) :
    List (String × List String) :=
  [("shuffle", [p.passes.repr]), ("direction", [p.direction.word]),
    ("collate", [if p.collate then "true" else "false"])] ++
    playerLines.map (fun pairs => ("player-piles", pairs.flatMap (pairWords l))) ++
    commonLines.map (fun pairs => ("common-piles", pairs.flatMap (pairWords l)))

/-- A keyword and the words behind it as a line. -/
def wordLine (x : String × List String) : String := " ".intercalate (x.1 :: x.2)

variable {p : DealPlan} {playerLines commonLines : List (List DealPair)}

/-- The lines of a block are its words, put together. -/
theorem blockLines_eq (l : Layout) (p : DealPlan)
    (playerLines commonLines : List (List DealPair)) :
    blockLines l p playerLines commonLines =
      (blockWords l p playerLines commonLines).map wordLine := by
  have hcollate : (if p.collate then "collate true" else "collate false") =
      wordLine ("collate", [if p.collate then "true" else "false"]) := by
    cases p.collate <;> decide
  have hdirection : "direction " ++ p.direction.word =
      wordLine ("direction", [p.direction.word]) := by
    cases p.direction <;> decide
  rw [blockLines, blockWords, hcollate, hdirection]
  simp only [List.map_append, List.map_map, List.map_cons, List.map_nil]
  rfl

/-- A written count is read back. -/
theorem readCount?_word {count : DealCount} (h : count.isShort = true) :
    readCount? count.word = some count := by
  cases count with
  | all => rfl
  | exactly n =>
    have hword : (DealCount.exactly n).word = n.repr := rfl
    have hne : (n.repr == "all") = false := by
      refine beq_false_of_ne fun heq => ?_
      have hdigit : 'a'.isDigit = true := Text.isDigit_of_mem_repr (n := n) (by rw [heq]; decide)
      cases hdigit
    rw [readCount?, hword, hne, if_neg Bool.false_ne_true,
      Text.shortCount?_repr (of_decide_eq_true h), Option.map_some]

section
variable (hnamed : l.Named) (hcount : l.piles.length ≤ 65536)
include hnamed hcount

/-- A declared slot has a name, under which it is found. -/
theorem slot?_nameOf_of_owner {slot : Slot} (h : l.owner? slot = some owner) :
    ∃ d ∈ l.piles, l.nameOf slot = d.name ∧ l.slot? (l.nameOf slot) = some slot := by
  rw [Layout.owner?, Option.map_eq_some_iff] at h
  obtain ⟨d, hd, -⟩ := h
  have hlt := (List.getElem?_eq_some_iff.1 hd).1
  obtain ⟨d, hd, hname, hslot⟩ := hnamed.slot?_nameOf ⟨hlt, Nat.lt_of_lt_of_le hlt hcount⟩
  exact ⟨d, hd, hname, hname ▸ hslot⟩

/-- The words written for pairs say the pairs. -/
theorem tells_pairWords (howner : ∀ pair ∈ pairs, l.owner? pair.slot = some owner)
    (hshort : ∀ pair ∈ pairs, pair.count.isShort = true) :
    Tells l owner (pairs.flatMap (pairWords l)) pairs := by
  induction pairs with
  | nil => exact .nil
  | cons pair pairs ih =>
    obtain ⟨hpair, hpairs⟩ := List.forall_mem_cons.1 howner
    obtain ⟨hpairShort, hpairsShort⟩ := List.forall_mem_cons.1 hshort
    obtain ⟨_, _, _, hslot⟩ := slot?_nameOf_of_owner hnamed hcount hpair
    exact .pair hslot hpair (readCount?_word hpairShort) (ih hpairs hpairsShort)

/-- Every word of a line is the name of a pile, a numeral or a keyword. -/
theorem mem_blockWords (hplan : p.Writable l) (hparts : p.Parted playerLines commonLines)
    {x : String × List String} (hx : x ∈ blockWords l p playerLines commonLines) :
    ∀ w ∈ x.1 :: x.2, (∃ d ∈ l.piles, w = d.name) ∨ Document.isKeyWord w = true := by
  have hpairs : ∀ pairs ∈ playerLines ++ commonLines, ∀ w ∈ pairs.flatMap (pairWords l),
      (∃ d ∈ l.piles, w = d.name) ∨ Document.isKeyWord w = true := by
    intro pairs hmem w hw
    obtain ⟨pair, hpair, hw⟩ := List.mem_flatMap.1 hw
    have howner : ∃ owner, l.owner? pair.slot = some owner := by
      rcases List.mem_append.1 hmem with hmem | hmem
      · exact ⟨_, hplan.fits.players pair (hparts.players ▸ List.mem_flatten_of_mem hmem hpair)⟩
      · exact ⟨_, hplan.fits.common pair (hparts.common ▸ List.mem_flatten_of_mem hmem hpair)⟩
    obtain ⟨owner, howner⟩ := howner
    obtain ⟨d, hd, hname, -⟩ := slot?_nameOf_of_owner hnamed hcount howner
    rw [pairWords, List.mem_cons, List.mem_singleton] at hw
    obtain rfl | rfl := hw
    · exact .inl ⟨d, hd, hname⟩
    · cases pair.count with
      | all => exact .inr (by decide +kernel)
      | exactly n => exact .inr (Document.isKeyWord_repr n)
  have hkeywords : ∀ w ∈ ["shuffle", "direction", "collate", "player-piles", "common-piles",
      "clockwise", "counterclockwise", "true", "false"], Document.isKeyWord w = true := by
    decide +kernel
  simp only [blockWords, List.mem_append, List.mem_map, List.mem_cons, List.not_mem_nil,
    or_false] at hx
  intro w hw
  obtain ((rfl | rfl | rfl) | ⟨pairs, hmem, rfl⟩) | ⟨pairs, hmem, rfl⟩ := hx
  · obtain rfl | ⟨rfl⟩ := List.mem_pair.1 hw
    · exact .inr (hkeywords "shuffle" (by simp))
    · exact .inr (Document.isKeyWord_repr _)
  · refine .inr (hkeywords w ?_)
    obtain rfl | ⟨rfl⟩ := List.mem_pair.1 hw
    · simp
    · cases p.direction <;> simp [Direction.word]
  · refine .inr (hkeywords w ?_)
    obtain rfl | ⟨rfl⟩ := List.mem_pair.1 hw
    · simp
    · cases p.collate <;> simp
  all_goals
    rcases List.mem_cons.1 hw with rfl | hw
    · exact .inr (hkeywords _ (by simp))
    · exact hpairs pairs (by simp [hmem]) w hw

variable (hplan : p.Writable l) (hparts : p.Parted playerLines commonLines)
include hplan hparts

/-- A block is written in words in which neither blanks nor quotes occur. -/
theorem isWord_of_mem_blockWords {x : String × List String}
    (hx : x ∈ blockWords l p playerLines commonLines) : ∀ w ∈ x.1 :: x.2, Text.IsWord w := by
  intro w hw
  obtain ⟨d, hd, rfl⟩ | hkey := mem_blockWords hnamed hcount hplan hparts hx w hw
  · exact (hnamed.isName d hd).1
  · have hword : Document.IsNormalWord true w := Document.isNormalWord_of_isKeyWord hkey
    exact hword.isWord

/-- The lines of a keyword, among those written for a plan. -/
theorem filter_blockLines (keyword : String) :
    (blockLines l p playerLines commonLines).filter (fun line => Text.firstWord line == keyword) =
      ((blockWords l p playerLines commonLines).filter fun x => x.1 == keyword).map wordLine := by
  rw [blockLines_eq, List.filter_map]
  refine congrArg (List.map wordLine) (List.filter_congr fun x hx => ?_)
  have hfirst : Text.firstWord (wordLine x) = x.1 :=
    Text.firstWord_intercalate (isWord_of_mem_blockWords hnamed hcount hplan hparts hx)
  rw [Function.comp_apply, hfirst]

/-- The lines for a plan are in normal form, where names hold no number sign and are in the case of
the document. -/
theorem isNormal_of_mem_blockLines {ignoreCase : Bool}
    (hsigns : ∀ d ∈ l.piles, '#' ∉ d.name.toList)
    (hlower : ignoreCase = true → ∀ d ∈ l.piles, ∀ c ∈ d.name.toList, Text.IsLower c) :
    ∀ line ∈ blockLines l p playerLines commonLines, Document.IsNormal ignoreCase line := by
  intro line hline
  rw [blockLines_eq, List.mem_map] at hline
  obtain ⟨x, hx, rfl⟩ := hline
  refine Document.isNormal_intercalate (List.cons_ne_nil _ _) fun w hw => ?_
  obtain ⟨d, hd, rfl⟩ | hkey := mem_blockWords hnamed hcount hplan hparts hx w hw
  · exact ⟨(hnamed.isName d hd).1, hsigns d hd, fun hcase => hlower hcase d hd⟩
  · exact Document.isNormalWord_of_isKeyWord hkey

section
variable (hblock : ∀ keyword, block.linesOf keyword =
  (blockLines l p playerLines commonLines).filter fun line => Text.firstWord line == keyword)
include hblock

/-- The lines of a keyword in a block where each keyword has the lines that are written for it. -/
theorem linesOf_of_written {xs : List (String × List String)}
    (hxs : (blockWords l p playerLines commonLines).filter (fun x => x.1 == keyword) = xs) :
    block.linesOf keyword = xs.map wordLine ∧ ∀ x ∈ xs, ∀ w ∈ x.1 :: x.2, Text.IsWord w := by
  subst hxs
  refine ⟨(hblock keyword).trans (filter_blockLines hnamed hcount hplan hparts keyword), ?_⟩
  intro x hx
  exact isWord_of_mem_blockWords hnamed hcount hplan hparts (List.mem_of_mem_filter hx)

/-- A setting is what stands behind its keyword. -/
theorem readSetting_of_written {α : Type} {default a : α} {read : String → Option α}
    (value : String)
    (hxs : (blockWords l p playerLines commonLines).filter (fun x => x.1 == keyword) =
      [(keyword, [value])])
    (hread : read value = some a) : readSetting block keyword default read = .ok a := by
  obtain ⟨hlines, hwords⟩ := linesOf_of_written hnamed hcount hplan hparts hblock hxs
  have hvalue : Text.afterFirstWord (wordLine (keyword, [value])) = value :=
    Text.afterFirstWord_eq_of_words
      (Text.words_afterFirstWord_intercalate (hwords _ (List.mem_singleton_self _)))
  rw [readSetting, Document.params?_eq, hlines, List.map_singleton, List.head?_cons,
    Option.map_some, hvalue]
  exact orFail_eq_ok.2 hread

/-- The lines written for parts of a list say the list. -/
theorem linesTell_of_written (parts : List (List DealPair))
    (hxs : (blockWords l p playerLines commonLines).filter (fun x => x.1 == keyword) =
      parts.map fun pairs => (keyword, pairs.flatMap (pairWords l)))
    (hpairs : parts.flatten = pairs) (hne : ∀ part ∈ parts, part ≠ [])
    (howner : ∀ pair ∈ pairs, l.owner? pair.slot = some owner)
    (hshort : ∀ pair ∈ pairs, pair.count.isShort = true) :
    LinesTell l owner (block.linesOf keyword) pairs := by
  subst hpairs
  obtain ⟨hlines, hwords⟩ := linesOf_of_written hnamed hcount hplan hparts hblock hxs
  refine ⟨parts, ?_, rfl⟩
  rw [hlines, List.map_map, List.forall₂_map_left_iff]
  refine List.forall₂_same.2 fun part hpart => ⟨hne part hpart, ?_⟩
  rw [Function.comp_apply, wordLine,
    Text.words_afterFirstWord_intercalate (hwords _ (List.mem_map_of_mem hpart))]
  exact tells_pairWords hnamed hcount
    (fun pair hpair => howner pair (List.mem_flatten_of_mem hpart hpair))
    fun pair hpair => hshort pair (List.mem_flatten_of_mem hpart hpair)

/-- A block in which each keyword has the lines that are written for it says the plan. -/
theorem told_of_written : Told block l p := by
  constructor
  case passes =>
    refine readSetting_of_written hnamed hcount hplan hparts hblock p.passes.repr ?_
      (Text.shortCount?_repr hplan.passes_lt)
    simp [blockWords, List.filter_map]
  case direction =>
    refine readSetting_of_written hnamed hcount hplan hparts hblock p.direction.word ?_
      (Direction.ofWord?_word p.direction)
    simp [blockWords, List.filter_map]
  case collate =>
    refine readSetting_of_written hnamed hcount hplan hparts hblock
      (if p.collate then "true" else "false") ?_ ?_
    · simp [blockWords, List.filter_map]
    · cases p.collate <;> rfl
  case players =>
    refine linesTell_of_written hnamed hcount hplan hparts hblock playerLines ?_ hparts.players
      (fun part hpart => hparts.ne_nil part (List.mem_append_left _ hpart)) hplan.fits.players
      fun pair hpair => hplan.isShort pair (List.mem_append_left _ hpair)
    simp [blockWords, List.filter_map, Function.comp_def]
  case common =>
    refine linesTell_of_written hnamed hcount hplan hparts hblock commonLines ?_ hparts.common
      (fun part hpart => hparts.ne_nil part (List.mem_append_right _ hpart)) hplan.fits.common
      fun pair hpair => hplan.isShort pair (List.mem_append_right _ hpair)
    simp [blockWords, List.filter_map, Function.comp_def]
  case all => exact hplan.fits.all

end

end

/-! ## Writing and reading -/

/-- Two lists have the same lines for each keyword, in the same order. How the keywords alternate
does not matter. -/
def SameByKeyword (lines written : List String) : Prop :=
  ∀ keyword, lines.filter (fun line => Text.firstWord line == keyword) =
    written.filter fun line => Text.firstWord line == keyword

/-- Lines that are the same by keyword as others are among these. -/
theorem SameByKeyword.mem {lines written : List String} (h : SameByKeyword lines written)
    {line : String} (hline : line ∈ lines) : line ∈ written := by
  have hmem : line ∈ lines.filter fun other => Text.firstWord other == Text.firstWord line :=
    List.mem_filter.2 ⟨hline, beq_self_eq_true _⟩
  rw [h] at hmem
  exact List.mem_of_mem_filter hmem

/-- No lines are the same by keyword only as no lines. -/
theorem SameByKeyword.ne_nil {lines written : List String} (h : SameByKeyword lines written)
    (hne : written ≠ []) : lines ≠ [] := by
  obtain ⟨line, rest, rfl⟩ := List.exists_cons_of_ne_nil hne
  rintro rfl
  have hnone := h (Text.firstWord line)
  have hmem : line ∈ (line :: rest).filter fun other =>
      Text.firstWord other == Text.firstWord line :=
    List.mem_filter.2 ⟨List.mem_cons_self, beq_self_eq_true _⟩
  rw [← hnone] at hmem
  cases hmem

/-- Only the keywords of the lines have to be looked at. -/
theorem sameByKeyword_iff {lines written : List String} : SameByKeyword lines written ↔
    ∀ keyword ∈ (lines ++ written).map Text.firstWord,
      lines.filter (fun line => Text.firstWord line == keyword) =
        written.filter fun line => Text.firstWord line == keyword := by
  refine ⟨fun h keyword _ => h keyword, fun h keyword => ?_⟩
  by_cases hmem : keyword ∈ (lines ++ written).map Text.firstWord
  · exact h keyword hmem
  · have hnone : ∀ line ∈ lines ++ written, ¬ (Text.firstWord line == keyword) = true := by
      intro line hline heq
      exact hmem (List.mem_map.2 ⟨line, hline, beq_iff_eq.1 heq⟩)
    rw [List.filter_eq_nil_iff.2 fun line hline => hnone line (List.mem_append_left _ hline),
      List.filter_eq_nil_iff.2 fun line hline => hnone line (List.mem_append_right _ hline)]

/-- Whether lines are the same by keyword is decided by the keywords that occur. -/
instance (lines written : List String) : Decidable (SameByKeyword lines written) :=
  decidable_of_iff' _ sameByKeyword_iff

/-- The names of a board that is read from a text are in the case of its lines. -/
theorem isLower_of_parse {kind : DocumentKind} {name text : String} {board : Document}
    (hparse : Document.parse kind name text = .ok board) (hl : Layout.compile board = .ok l)
    (hcase : kind.ignoresCase = true) : ∀ d ∈ l.piles, ∀ c ∈ d.name.toList, Text.IsLower c := by
  intro d hd c hc
  obtain ⟨-, rfl⟩ := Document.parse_ok.1 hparse
  obtain ⟨line, hline, hsub⟩ := Layout.exists_line_of_compile hl d hd
  have hnormal := Document.isNormal_of_mem_normalLines hline
  exact Text.isLower_of_lowercase_eq (hnormal.lower hcase) c (hsub hc)

/-- Every plan that a layout admits is read back from the block that is written for it, as a
document or as a text, with its pairs on any number of lines and the keywords in any order. And a
block that is read fits the layout; one that asks twice for everything left is refused. -/
theorem compile_undoes_writing :
    (∀ {board : Document} {l : Layout} {p : DealPlan}
      {playerLines commonLines : List (List DealPair)},
      Layout.compile board = .ok l → l.piles.length ≤ 65536 → p.Writable l →
      p.Parted playerLines commonLines →
      (∀ block : Document,
        SameByKeyword block.lines (blockLines l p playerLines commonLines) →
        compile block l = .ok p) ∧
      ∀ boardKind boardName boardText kind name lines,
        Document.parse boardKind boardName boardText = .ok board →
        (kind.ignoresCase = true → boardKind.ignoresCase = true) →
        (∀ d ∈ l.piles, '#' ∉ d.name.toList) →
        SameByKeyword lines (blockLines l p playerLines commonLines) →
        ∃ block, Document.parse kind name ("\n".intercalate lines) = .ok block ∧
          compile block l = .ok p) ∧
    (∀ {block : Document} {l : Layout} {p : DealPlan}, compile block l = .ok p → p.Fits l) ∧
    ∀ {block : Document} {l : Layout},
      2 ≤ allWords (block.linesOf "player-piles") + allWords (block.linesOf "common-piles") →
      ∃ e, compile block l = .error e := by
  refine ⟨fun {board l p playerLines commonLines} hl hcount hplan hparts => ?_,
    fun h => (compile_ok h).2, fun {block l} htwo => ?_⟩
  · have hnamed := Layout.named_of_compile hl
    have hread : ∀ block : Document,
        SameByKeyword block.lines (blockLines l p playerLines commonLines) →
        compile block l = .ok p := fun block hblock =>
      compile_iff.2 (told_of_written hnamed hcount hplan hparts hblock)
    refine ⟨hread, fun boardKind boardName boardText kind name lines hparse hcase hsigns hlines =>
      ⟨⟨kind, name, lines⟩, ?_, hread _ hlines⟩⟩
    refine Document.parse_of_isNormal (hlines.ne_nil (List.cons_ne_nil _ _)) fun line hline => ?_
    exact isNormal_of_mem_blockLines hnamed hcount hplan hparts hsigns
      (fun hkind => isLower_of_parse hparse hl (hcase hkind)) line (hlines.mem hline)
  · cases h : compile block l with
    | error e => exact ⟨e, rfl⟩
    | ok p =>
      have htold := compile_iff.1 h
      have hone := htold.all
      rw [← htold.count_all] at hone
      omega

/-- The declarations of a hand, a stock and a heap. -/
def handStockHeap : String := "cardpile Hand\nowner player\ncardpile stock # rest\ncardpile heap"

/-- Pairs on three lines, those of the shared piles around those of the players, are read back. With
a second pile that gets everything left the block is refused. -/
theorem interleaved_undoes_writing :
    (∃ board l block, Document.parse .board "b" handStockHeap = .ok board ∧
      Layout.compile board = .ok l ∧
      Document.parse .rules "r" ("common-piles heap 1\nplayer-piles hand 5\ncollate true\n" ++
        "common-piles stock all\ndirection counterclockwise\nshuffle 4294967295") = .ok block ∧
      compile block l = .ok ⟨4294967295, .counterclockwise, true, [⟨⟨0⟩, .exactly 5⟩],
        [⟨⟨2⟩, .exactly 1⟩, ⟨⟨1⟩, .all⟩]⟩) ∧
    ∀ l, ∃ e, compile ⟨.rules, "r", ["player-piles hand all", "common-piles stock all"]⟩ l =
      .error e := by
  obtain ⟨hwrite, -, hrefuse⟩ := compile_undoes_writing
  refine ⟨?_, fun l => hrefuse (by decide +kernel)⟩
  have hparse : Document.parse .board "b" handStockHeap = .ok ⟨.board, "b",
      ["cardpile hand", "owner player", "cardpile stock", "cardpile heap"]⟩ :=
    Document.parse_ok.2 ⟨by decide +kernel, by decide +kernel⟩
  have hl : Layout.compile ⟨.board, "b",
      ["cardpile hand", "owner player", "cardpile stock", "cardpile heap"]⟩ =
      .ok ⟨"b", [⟨"hand", { owner := .player }⟩, ⟨"stock", {}⟩, ⟨"heap", {}⟩], none, none, none,
        [⟨1⟩, ⟨2⟩], [⟨0⟩]⟩ := by rfl
  obtain ⟨-, htext⟩ := @hwrite _ _ ⟨4294967295, .counterclockwise, true, [⟨⟨0⟩, .exactly 5⟩],
    [⟨⟨2⟩, .exactly 1⟩, ⟨⟨1⟩, .all⟩]⟩ [[⟨⟨0⟩, .exactly 5⟩]] [[⟨⟨2⟩, .exactly 1⟩], [⟨⟨1⟩, .all⟩]] hl
    (by decide) ⟨⟨by decide, by decide, by decide⟩, by decide, by decide⟩ ⟨rfl, rfl, by decide⟩
  obtain ⟨block, hblock, hread⟩ := htext _ _ _ .rules "r" ["common-piles heap 1",
    "player-piles hand 5", "collate true", "common-piles stock all", "direction counterclockwise",
    "shuffle 4294967295"] hparse (fun _ => rfl) (by decide) (by decide +kernel)
  exact ⟨_, _, block, hparse, hl, hblock, hread⟩

end DealPlan

end HouseRules
