import HouseRules.Deal.Reader
import HouseRules.Deck.Reader
import HouseRules.Layout.Reader
import HouseRules.Proofs.Board.Instance
import HouseRules.Proofs.Strict.Document
import HouseRules.Ranking

/-!
# Decks, rankings, boards and deals read strictly

The readers of what is on the table take the fields of an entry, the faces and groups of a deck, the
lines of a block and the declarations of a layout by their places. Each place is checked, but the
check and the taking are often apart: how many fields an entry has is compared before they are
taken, the lines of a declaration are numbered by looking for the keyword that ends it, and a slot
is found by a name before its declaration is asked for the owner.

Each reader is written here once more, strictly, and comes to what it gives, for every document.
-/

namespace HouseRules

/-! ## Decks -/

namespace Deck

/-- `Deck.readHead`, read strictly. -/
def readHeadStrict (doc : Document) : Strict CompileError Head := do
  let sizeText ← doc.requireParamsStrict "size"
  let size ← orFail (doc.refused "size" sizeText) (Text.count? sizeText)
  if size > maxSize then throw (doc.refused "size" sizeText)
  let faces ← doc.requireParamsStrict "faces"
  let groups ← doc.paramsStrict "groups"
  let grouping ← doc.paramsStrict "grouping"
  return {
    size
    faces := Text.words faces
    groups := Text.words (groups.getD "")
    grouping := grouping.filter (· != "")
    counted := doc.has "specify-quantity" }

/-- `Deck.indexed`, read strictly: the index is compared with the length of the list, and then the
name is taken. -/
def indexedStrict (doc : Document) (what : String) (names : List String) (text : String) :
    Strict CompileError String := do
  let i ← orFail (CompileError.invalidReference doc.identity what text)
    ((Text.count? text).filter (· < names.length))
  Strict.entry names i

/-- The group of an entry, read strictly from its second field. -/
def readGroupStrict (doc : Document) (head : Head) (fields : List String) :
    Strict CompileError (Option String) :=
  if head.groups.isEmpty then pure none
  else do
    let text ← Strict.entry fields 1
    let group ← indexedStrict doc "group index" head.groups text
    return some group

/-- The number of copies of an entry, read strictly from its last field. -/
def readQuantityStrict (doc : Document) (head : Head) (fields : List String) :
    Strict CompileError Nat :=
  if head.counted then do
    let last ← head.fieldCount.psub 1
    let text ← Strict.entry fields last
    orFail (doc.refused "quantity" text) (Text.count? text)
  else pure 1

/-- `Deck.readEntry`, read strictly. -/
def readEntryStrict (doc : Document) (head : Head) (line : String) :
    Strict CompileError DeckEntry := do
  let fields := Text.fields line
  if head.groups.isEmpty && fields.length == head.fieldCount + 1 then
    let text ← Strict.entry fields 1
    throw (.invalidReference doc.identity "group index (deck declares no groups)" text)
  if fields.length != head.fieldCount then throw (doc.refused "cards" line)
  let text ← Strict.entry fields 0
  let face ← indexedStrict doc "face index" head.faces text
  let group ← readGroupStrict doc head fields
  let quantity ← readQuantityStrict doc head fields
  return ⟨face, group, quantity⟩

/-- `Deck.readPairs`, read strictly: the entries are cut out of the document. -/
def readPairsStrict (doc : Document) (head : Head) (cardsAt : Nat) :
    Strict CompileError (List (String × Option String)) := do
  let text ← doc.paramsAtStrict cardsAt
  if text == "all" then
    let pairs := allPairs head.faces head.groups
    if pairs.length == head.size then return pairs
    else throw (wrongSize doc head pairs.length)
  else
    let lines ← slice? doc.lines (cardsAt + 1) doc.lines.length
    let entries ← lines.mapM (readEntryStrict doc head)
    let total := DeckEntry.total entries
    if total == head.size then return DeckEntry.expand entries
    else throw (wrongSize doc head (min total (head.size + 1)))

/-- `Deck.compile`, read strictly. -/
def compileStrict (doc : Document) : Strict CompileError Deck := do
  let head ← readHeadStrict doc
  let cardsAt ← doc.require "cards"
  let pairs ← readPairsStrict doc head cardsAt
  return {
    name := doc.name
    cards := number pairs
    faces := head.faces
    groups := head.groups
    grouping := head.grouping }

variable {doc : Document} {head : Head}

/-- The head of a deck is read without taking a line that is not there. -/
theorem readHeadStrict_eq : readHeadStrict doc = some (readHead doc) := by
  refine Strict.bind_eq (Document.requireParamsStrict_eq _) fun sizeText _ => ?_
  refine Strict.read_bind fun size _ => Strict.guard_eq fun _ => ?_
  refine Strict.bind_eq (Document.requireParamsStrict_eq _) fun faces _ => ?_
  refine (Strict.take_bind (Document.paramsStrict_eq _) _).trans ?_
  exact Strict.take_bind (Document.paramsStrict_eq _) _

/-- An index that passes the comparison has a name. -/
theorem indexedStrict_eq (what : String) (names : List String) (text : String) :
    indexedStrict doc what names text = some (indexed doc what names text) := by
  unfold indexedStrict indexed
  cases Text.count? text with
  | none => rfl
  | some i =>
    by_cases hi : i < names.length
    · have hname := List.getElem?_eq_getElem hi
      simp only [Option.filter_some, hi, decide_true, if_true, Option.bind_some, hname]
      exact Strict.entry_eq hname
    · simp only [Option.filter_some, hi, decide_false, Bool.false_eq_true, if_false,
        Option.bind_some, List.getElem?_eq_none (Nat.le_of_not_lt hi)]
      rfl

/-- Where there are groups, entries have a second field. -/
theorem readGroupStrict_bind {β : Type} {fields : List String}
    (hfields : fields.length = head.fieldCount) {f : Option String → Strict CompileError β}
    {g : Option String → Compiled β} (hf : ∀ group, f group = some (g group)) :
    readGroupStrict doc head fields >>= f =
      some (if head.groups.isEmpty then pure none >>= g
        else some <$> indexed doc "group index" head.groups (fields[1]?.getD "") >>= g) := by
  unfold readGroupStrict
  by_cases hgroups : head.groups.isEmpty = true
  · rw [if_pos hgroups, if_pos hgroups]
    exact hf none
  · have hcount : 1 < head.fieldCount := by
      rw [Head.fieldCount, if_neg hgroups]
      omega
    obtain ⟨text, htext⟩ : ∃ text, fields[1]? = some text :=
      ⟨_, List.getElem?_eq_getElem (hfields ▸ hcount)⟩
    rw [if_neg hgroups, if_neg hgroups, Strict.entry_bind htext, htext, Option.getD_some,
      indexedStrict_eq]
    cases indexed doc "group index" head.groups text with
    | ok name => exact hf (some name)
    | error e => rfl

/-- Entries have a last field. -/
theorem readQuantityStrict_bind {β : Type} {fields : List String}
    (hfields : fields.length = head.fieldCount) {f : Nat → Strict CompileError β}
    {g : Nat → Compiled β} (hf : ∀ quantity, f quantity = some (g quantity)) :
    readQuantityStrict doc head fields >>= f =
      some (if head.counted then
          orFail (doc.refused "quantity" (fields[head.fieldCount - 1]?.getD ""))
            (Text.count? (fields[head.fieldCount - 1]?.getD "")) >>= g
        else pure 1 >>= g) := by
  unfold readQuantityStrict
  by_cases hcounted : head.counted = true
  · have hcount : 1 ≤ head.fieldCount := by
      rw [Head.fieldCount]
      omega
    have hlast : head.fieldCount.psub 1 = some (head.fieldCount - 1) := Nat.psub_eq_sub hcount
    obtain ⟨text, htext⟩ : ∃ text, fields[head.fieldCount - 1]? = some text :=
      ⟨_, List.getElem?_eq_getElem (by omega)⟩
    rw [if_pos hcounted, if_pos hcounted, Strict.take_bind hlast, Strict.entry_bind htext, htext,
      Option.getD_some]
    exact Strict.read_bind fun quantity _ => hf quantity
  · rw [if_neg hcounted, if_neg hcounted]
    exact hf 1

/-- How many fields an entry has is compared before they are taken. -/
theorem readEntryStrict_eq (line : String) :
    readEntryStrict doc head line = some (readEntry doc head line) := by
  refine Strict.ite_eq (fun hmore => ?_) fun _ => Strict.guard_eq fun hfields => ?_
  · obtain ⟨text, htext⟩ : ∃ text, (Text.fields line)[1]? = some text := by
      simp only [Bool.and_eq_true, beq_iff_eq, Head.fieldCount] at hmore
      exact ⟨_, List.getElem?_eq_getElem (by omega)⟩
    rw [Strict.entry_bind htext, htext]
    rfl
  · have hfields : (Text.fields line).length = head.fieldCount := by simpa using hfields
    obtain ⟨text, htext⟩ : ∃ text, (Text.fields line)[0]? = some text := by
      rw [Head.fieldCount] at hfields
      exact ⟨_, List.getElem?_eq_getElem (by omega)⟩
    rw [Strict.entry_bind htext, htext]
    refine Strict.bind_eq (indexedStrict_eq _ _ _) fun face _ => ?_
    exact readGroupStrict_bind hfields fun group => readQuantityStrict_bind hfields fun _ => rfl

/-- The entries begin behind a line of the document. -/
theorem readPairsStrict_eq {cardsAt : Nat} (hcards : cardsAt < doc.size) :
    readPairsStrict doc head cardsAt = some (readPairs doc head cardsAt) := by
  refine (Strict.take_bind (Document.paramsAtStrict_eq cardsAt) _).trans ?_
  refine Strict.ite_eq (fun _ => Strict.ite_eq (fun _ => rfl) fun _ => rfl) fun _ => ?_
  refine (Strict.take_bind (slice?_length hcards) _).trans ?_
  refine Strict.bind_eq (Strict.mapM_eq fun line _ => readEntryStrict_eq line) fun entries _ => ?_
  exact Strict.ite_eq (fun _ => rfl) fun _ => rfl

/-- A deck is read without taking a field, a face or a group that is not there. -/
theorem compileStrict_eq : compileStrict doc = some (compile doc) := by
  refine Strict.bind_eq readHeadStrict_eq fun head _ => Strict.read_bind fun cardsAt hcards => ?_
  have hlt := (Document.findFrom?_spec (orFail_eq_ok.1 hcards)).2
  exact Strict.bind_eq (readPairsStrict_eq hlt) fun _ _ => rfl

end Deck

/-! ## Rankings -/

/-- `Ranking.compile`, read strictly: the score of a tier is taken from the number of tiers. -/
def Ranking.compileStrict (block : Document) (deck : Deck) : Strict CompileError Ranking :=
  block.lines.zipIdx.foldlM (fun r (line, i) => do
    let score ← block.size.psub i
    addTier block deck r score line) flat

/-- A ranking is read without taking a line that is not there. -/
theorem Ranking.compileStrict_eq (block : Document) (deck : Deck) :
    compileStrict block deck = some (compile block deck) := by
  refine Strict.foldlM_eq (fun r (line, i) htier => ?_) flat
  have hi : i < block.size := (List.getElem?_eq_some_iff.1 (List.mem_zipIdx_iff_getElem?.1 htier)).1
  refine (Strict.take_bind (Nat.psub_eq_sub (Nat.le_of_lt hi)) _).trans ?_
  exact Strict.liftM_except _

/-! ## Boards -/

namespace Layout

/-- The declaration of a slot, which has to be there. -/
def declarationStrict (l : Layout) (slot : Slot) : Strict CompileError PileDeclaration :=
  Strict.entry l.piles slot.index

/-- `Layout.readPolicyLine`, read strictly. -/
def readPolicyLineStrict (doc : Document) (policy : PilePolicy) (index : Nat) :
    Strict CompileError PilePolicy := do
  let line ← Strict.entry doc.lines index
  let keyword := Text.firstWord line
  let value ← doc.requireParamsAtStrict index keyword
  match keyword with
  | "owner" => return { policy with owner := ← wordValue doc keyword value PileOwner.ofWord? }
  | "visibility" =>
    return { policy with visibility := ← wordValue doc keyword value Visibility.ofWord? }
  | "visible" => return { policy with visible := some (← wordValue doc keyword value Text.count?) }
  | "placement" =>
    return { policy with placement := ← wordValue doc keyword value Placement.ofWord? }
  | "orientation" =>
    return { policy with orientation := ← wordValue doc keyword value Orientation.ofWord? }
  | "tiling" => return { policy with tiling := ← wordValue doc keyword value Tiling.ofWord? }
  | "removal" => return { policy with removal := ← wordValue doc keyword value Removal.ofWord? }
  | _ => throw (doc.refused "cardpile" line)

/-- `Layout.readPolicy`, read strictly. -/
def readPolicyStrict (doc : Document) (start stop : Nat) : Strict CompileError PilePolicy :=
  ((List.range stop).drop start).foldlM (readPolicyLineStrict doc) {}

/-- `Layout.readDeclaration`, read strictly. -/
def readDeclarationStrict (doc : Document) (piles : List PileDeclaration) (opener : Nat) :
    Strict CompileError (List PileDeclaration) := do
  let name ← doc.requireParamsAtStrict opener "cardpile"
  if name.toList.any (fun c => c == '.' || c == '@') || (Text.words name).length != 1 then
    throw (doc.refused "cardpile" name)
  if piles.any (·.name == name) then throw (.duplicateComponent "cardpile" name)
  let policy ← readPolicyStrict doc (opener + 1) (declarationEnd doc opener)
  return piles ++ [⟨name, policy⟩]

/-- `Layout.readSlots`, read strictly. -/
def readSlotsStrict (doc : Document) (l : Layout) (names : String) (owner : PileOwner) :
    Strict CompileError (List Slot) :=
  (Text.words names).mapM fun name => do
    let slot ← orFail (CompileError.unresolvedReference "cardpile" name
      (doc.identity ++ " board-layout")) (l.slot? name)
    let declaration ← l.declarationStrict slot
    if declaration.policy.owner != owner then
      throw (.invalidComponent "cardpile" name "listed under the wrong owner in board-layout")
    return slot

/-- `Layout.readSectionLine`, read strictly. -/
def readSectionLineStrict (doc : Document) (l : Layout) (index : Nat) :
    Strict CompileError Layout := do
  let line ← Strict.entry doc.lines index
  let value ← doc.paramsAtStrict index
  match Text.firstWord line with
  | "shape" => return { l with shape := some value }
  | "player-layout" => return { l with playerLayout := some value }
  | "dealer" => return { l with dealer := some value }
  | "common-piles" => return { l with commonPiles := ← readSlotsStrict doc l value .common }
  | "player-piles" => return { l with playerPiles := ← readSlotsStrict doc l value .player }
  | _ => throw (doc.refused "board-layout" line)

/-- `Layout.readSection`, read strictly. -/
def readSectionStrict (doc : Document) (l : Layout) (opener : Nat) : Strict CompileError Layout :=
  let stop := (doc.findFrom? "cardpile" (opener + 1)).getD doc.size
  ((List.range stop).drop (opener + 1)).foldlM (readSectionLineStrict doc) l

/-- `Layout.compile`, read strictly. -/
def compileStrict (doc : Document) : Strict CompileError Layout := do
  let openers := doc.positions "cardpile"
  if openers.isEmpty then throw (doc.missing "cardpile")
  let piles ← openers.foldlM (readDeclarationStrict doc) []
  let declared : Layout := ⟨doc.name, piles, none, none, none, [], []⟩
  let l ←
    match doc.find? "board-layout" with
    | some opener => readSectionStrict doc declared opener
    | none => pure declared
  return { l with
    commonPiles := complete l.commonPiles (l.slotsOf .common)
    playerPiles := complete l.playerPiles (l.slotsOf .player) }

variable {doc : Document} {l : Layout}

/-- A line of a declaration is read without taking a line that is not there. -/
theorem readPolicyLineStrict_eq (policy : PilePolicy) {index : Nat} (hindex : index < doc.size) :
    readPolicyLineStrict doc policy index = some (readPolicyLine doc policy index) := by
  have hline := List.getElem?_eq_getElem hindex
  unfold readPolicyLineStrict readPolicyLine
  rw [Strict.entry_bind hline, hline]
  refine Strict.bind_eq (Document.requireParamsAtStrict_eq _ _) fun value _ => ?_
  dsimp only [Option.getD_some]
  generalize Text.firstWord doc.lines[index] = keyword
  split
  case h_8 =>
    -- A word that is no policy's is refused by both.
    simp_all only [imp_false]
    rfl
  all_goals exact Strict.read_bind fun _ _ => rfl

/-- A policy is read without taking a line that is not there. -/
theorem readPolicyStrict_eq (start : Nat) {stop : Nat} (hstop : stop ≤ doc.size) :
    readPolicyStrict doc start stop = some (readPolicy doc start stop) := by
  refine Strict.foldlM_eq (fun policy index hindex => readPolicyLineStrict_eq policy ?_) {}
  exact Nat.lt_of_lt_of_le (List.mem_range.1 (List.mem_of_mem_drop hindex)) hstop

/-- A declaration ends at a line that is found, or where the document does. -/
theorem declarationEnd_le (opener : Nat) : declarationEnd doc opener ≤ doc.size := by
  have hnext : ∀ i ∈ doc.findFrom? "cardpile" (opener + 1), i < doc.size := fun _ hi =>
    (Document.findFrom?_spec hi).2
  have hending : ∀ i ∈ (doc.find? "board-layout").filter (opener < ·), i < doc.size := fun _ hi =>
    (Document.findFrom?_spec (Option.filter_eq_some_iff.1 hi).1).2
  unfold declarationEnd
  dsimp only
  split
  next a b ha hb => exact Nat.le_trans (Nat.min_le_left _ _) (Nat.le_of_lt (hnext a ha))
  next a ha _ => exact Nat.le_of_lt (hnext a ha)
  next b _ hb => exact Nat.le_of_lt (hending b hb)
  next => exact le_rfl

/-- A declaration is read without taking a line that is not there. -/
theorem readDeclarationStrict_eq (piles : List PileDeclaration) (opener : Nat) :
    readDeclarationStrict doc piles opener = some (readDeclaration doc piles opener) := by
  refine Strict.bind_eq (Document.requireParamsAtStrict_eq _ _) fun name _ => ?_
  refine Strict.guard_eq fun _ => Strict.guard_eq fun _ => ?_
  exact Strict.bind_eq (readPolicyStrict_eq _ (declarationEnd_le opener)) fun _ _ => rfl

/-- A slot that was found by a name has a declaration, which says who owns its piles. -/
theorem exists_declaration {name : String} {slot : Slot} (h : l.slot? name = some slot) :
    ∃ declaration, l.piles[slot.index]? = some declaration ∧
      ∀ owner, (l.owner? slot != some owner) = (declaration.policy.owner != owner) := by
  have hdeclaration := List.getElem?_eq_getElem (declares_of_slot? h).1
  refine ⟨_, hdeclaration, fun owner => ?_⟩
  rw [owner?, declaration?, hdeclaration]
  rfl

/-- A list of piles is read without taking a declaration that is not there. -/
theorem readSlotsStrict_eq (names : String) (owner : PileOwner) :
    readSlotsStrict doc l names owner = some (readSlots doc l names owner) := by
  refine Strict.mapM_eq fun name _ => Strict.read_bind fun slot hslot => ?_
  obtain ⟨declaration, hdeclaration, howner⟩ := exists_declaration (orFail_eq_ok.1 hslot)
  rw [declarationStrict, Strict.entry_bind hdeclaration, howner]
  exact Strict.guard_eq fun _ => rfl

/-- A line of the layout section is read without taking a declaration that is not there. -/
theorem readSectionLineStrict_eq (l : Layout) {index : Nat} (hindex : index < doc.size) :
    readSectionLineStrict doc l index = some (readSectionLine doc l index) := by
  have hline := List.getElem?_eq_getElem hindex
  unfold readSectionLineStrict readSectionLine
  rw [Strict.entry_bind hline, Strict.take_bind (Document.paramsAtStrict_eq index), hline]
  dsimp only [Option.getD_some]
  generalize Text.firstWord doc.lines[index] = keyword
  split
  case h_6 =>
    -- A word that is no line's is refused by both.
    simp_all only [imp_false]
    rfl
  case h_4 | h_5 => exact Strict.bind_eq (readSlotsStrict_eq _ _) fun _ _ => rfl
  all_goals rfl

/-- The layout section is read without taking a line that is not there. -/
theorem readSectionStrict_eq (l : Layout) (opener : Nat) :
    readSectionStrict doc l opener = some (readSection doc l opener) := by
  have hstop : (doc.findFrom? "cardpile" (opener + 1)).getD doc.size ≤ doc.size := by
    cases h : doc.findFrom? "cardpile" (opener + 1) with
    | none => exact le_rfl
    | some i => exact Nat.le_of_lt (Document.findFrom?_spec h).2
  refine Strict.foldlM_eq (fun l index hindex => readSectionLineStrict_eq l ?_) l
  exact Nat.lt_of_lt_of_le (List.mem_range.1 (List.mem_of_mem_drop hindex)) hstop

/-- A layout is read without taking a line or a declaration that is not there. -/
theorem compileStrict_eq : compileStrict doc = some (compile doc) := by
  refine Strict.guard_eq fun _ => ?_
  refine Strict.bind_eq (Strict.foldlM_eq (fun piles opener _ => ?_) []) fun piles _ => ?_
  · exact readDeclarationStrict_eq piles opener
  · dsimp only
    cases doc.find? "board-layout" with
    | some opener => exact Strict.bind_eq (readSectionStrict_eq _ opener) fun _ _ => rfl
    | none => rfl

end Layout

/-! ## Deals -/

namespace DealPlan

/-- `DealPlan.readPair`, read strictly. -/
def readPairStrict (block : Document) (layout : Layout) (keyword : String) (owner : PileOwner)
    (name count : String) : Strict CompileError DealPair := do
  let slot ← orFail (CompileError.unresolvedReference "cardpile" name
    (block.identity ++ " " ++ keyword)) (layout.slot? name)
  let declaration ← layout.declarationStrict slot
  if declaration.policy.owner != owner then
    throw (.invalidComponent "cardpile" name ("cannot be dealt by `" ++ keyword ++ "`"))
  let count ← requireValue block keyword count (readCount? count)
  return ⟨slot, count⟩

/-- Words by twos; of an odd number the last one is left alone. -/
def chunks : List String → List (List String)
  | a :: b :: rest => [a, b] :: chunks rest
  | [a] => [[a]]
  | [] => []

/-- `DealPlan.readPairs`, read strictly: a pile and its count are the two words of a chunk. -/
def readPairsStrict (block : Document) (layout : Layout) (keyword : String) (owner : PileOwner)
    (words : List String) : Strict CompileError (List DealPair) :=
  (chunks words).mapM fun chunk => do
    let name ← Strict.entry chunk 0
    let count ← Strict.entry chunk 1
    readPairStrict block layout keyword owner name count

/-- `DealPlan.readLine`, read strictly. -/
def readLineStrict (block : Document) (layout : Layout) (keyword : String) (owner : PileOwner)
    (index : Nat) : Strict CompileError (List DealPair) := do
  let text ← block.requireParamsAtStrict index keyword
  let words := Text.words text
  if words.length % 2 != 0 then throw (block.refused keyword text)
  readPairsStrict block layout keyword owner words

/-- `DealPlan.readLines`, read strictly. -/
def readLinesStrict (block : Document) (layout : Layout) (keyword : String) (owner : PileOwner) :
    Strict CompileError (List DealPair) := do
  let lines ← (block.positions keyword).mapM (readLineStrict block layout keyword owner)
  return lines.flatten

/-- `DealPlan.readSetting`, read strictly. -/
def readSettingStrict {α : Type} (block : Document) (keyword : String) (default : α)
    (read : String → Option α) : Strict CompileError α := do
  match ← block.paramsStrict keyword with
  | some value => requireValue block keyword value (read value)
  | none => return default

/-- `DealPlan.compile`, read strictly. -/
def compileStrict (block : Document) (layout : Layout) : Strict CompileError DealPlan := do
  let passes ← readSettingStrict block "shuffle" 1 Text.shortCount?
  let direction ← readSettingStrict block "direction" .clockwise Direction.ofWord?
  let collate ← readSettingStrict block "collate" false readCollate?
  let playerPiles ← readLinesStrict block layout "player-piles" .player
  let commonPiles ← readLinesStrict block layout "common-piles" .common
  let plan : DealPlan := { passes, direction, collate, playerPiles, commonPiles }
  if plan.pairs.countP (·.count == .all) > 1 then throw (.multipleDealAll block.identity)
  return plan

variable {block : Document} {l : Layout} {keyword : String} {owner : PileOwner}

/-- A pair of a deal is read without taking a declaration that is not there. -/
theorem readPairStrict_eq (name count : String) :
    readPairStrict block l keyword owner name count =
      some (readPair block l keyword owner name count) := by
  refine Strict.read_bind fun slot hslot => ?_
  obtain ⟨declaration, hdeclaration, howner⟩ := Layout.exists_declaration (orFail_eq_ok.1 hslot)
  rw [Layout.declarationStrict, Strict.entry_bind hdeclaration, howner]
  exact Strict.guard_eq fun _ => Strict.read_bind fun _ _ => rfl

/-- An even number of words falls into twos. -/
theorem readPairsStrict_eq {words : List String} (heven : words.length % 2 = 0) :
    readPairsStrict block l keyword owner words =
      some (readPairs block l keyword owner words) := by
  unfold readPairsStrict
  induction words using readPairs.induct with
  | case1 name count rest ih =>
    rw [chunks, List.mapM_cons, readPairs]
    refine Strict.bind_eq (readPairStrict_eq name count) fun pair _ => ?_
    refine Strict.bind_eq (ih ?_) fun _ _ => rfl
    rw [List.length_cons, List.length_cons] at heven
    omega
  | case2 words hwords =>
    match words with
    | [] => rfl
    | [_] => cases heven
    | a :: b :: rest => exact absurd rfl (hwords a b rest)

/-- A line of a deal is read without taking a word that is not there. -/
theorem readLineStrict_eq (index : Nat) :
    readLineStrict block l keyword owner index = some (readLine block l keyword owner index) := by
  refine Strict.bind_eq (Document.requireParamsAtStrict_eq _ _) fun text _ => ?_
  exact Strict.guard_eq fun heven => readPairsStrict_eq (by simpa using heven)

/-- The lines of a keyword of a deal are read without taking a word that is not there. -/
theorem readLinesStrict_eq :
    readLinesStrict block l keyword owner = some (readLines block l keyword owner) :=
  Strict.bind_eq (Strict.mapM_eq fun index _ => readLineStrict_eq index) fun _ _ => rfl

/-- A setting of a deal is read without taking a line that is not there. -/
theorem readSettingStrict_eq {α : Type} (default : α) (read : String → Option α) :
    readSettingStrict block keyword default read =
      some (readSetting block keyword default read) := by
  refine (Strict.take_bind (Document.paramsStrict_eq keyword) _).trans ?_
  unfold readSetting
  cases block.params? keyword with
  | some value => exact Strict.liftM_except _
  | none => rfl

/-- A deal is read without taking a line, a word or a declaration that is not there. -/
theorem compileStrict_eq : compileStrict block l = some (compile block l) := by
  refine Strict.bind_eq (readSettingStrict_eq _ _) fun passes _ => ?_
  refine Strict.bind_eq (readSettingStrict_eq _ _) fun direction _ => ?_
  refine Strict.bind_eq (readSettingStrict_eq _ _) fun collate _ => ?_
  refine Strict.bind_eq readLinesStrict_eq fun playerPiles _ => ?_
  refine Strict.bind_eq readLinesStrict_eq fun commonPiles _ => ?_
  exact Strict.guard_eq fun _ => rfl

end DealPlan

end HouseRules
