import HouseRules.Deal.Plan
import HouseRules.Document
import HouseRules.Layout
import HouseRules.Text.Numeral

/-!
# Reading deal blocks

```text
deal
shuffle 2
direction clockwise
collate true
player-piles hand 5
common-piles discard 1 draw all
deal-end
```

A pile is listed under the keyword of its owner. Only one pile in all may get everything that is
left.

Reference: `DealConfig.compile` (specification E2.3).
-/

namespace HouseRules.DealPlan

/-- The error for a value that a keyword of the block does not take. -/
def requireValue {α : Type} (block : Document) (keyword value : String) (read : Option α) :
    Compiled α :=
  orFail (block.refused keyword value) read

/-- Whether `collate` is set. -/
def readCollate? : String → Option Bool
  | "true" | "yes" | "" => some true
  | "false" | "no" => some false
  | _ => none

/-- How many cards a word asks for. -/
def readCount? (word : String) : Option DealCount :=
  if word == "all" then some .all else (Text.shortCount? word).map .exactly

/-- Reads a pile and its count. -/
def readPair (block : Document) (layout : Layout) (keyword : String) (owner : PileOwner)
    (name count : String) : Compiled DealPair := do
  let slot ← orFail (.unresolvedReference "cardpile" name (block.identity ++ " " ++ keyword))
    (layout.slot? name)
  if layout.owner? slot != some owner then
    throw (.invalidComponent "cardpile" name ("cannot be dealt by `" ++ keyword ++ "`"))
  let count ← requireValue block keyword count (readCount? count)
  return ⟨slot, count⟩

/-- Reads piles and counts in turn; a list of odd length ends early and is refused before. -/
def readPairs (block : Document) (layout : Layout) (keyword : String) (owner : PileOwner) :
    List String → Compiled (List DealPair)
  | name :: count :: rest => do
    let pair ← readPair block layout keyword owner name count
    let pairs ← readPairs block layout keyword owner rest
    return pair :: pairs
  | _ => .ok []

/-- Reads one line of piles and counts. -/
def readLine (block : Document) (layout : Layout) (keyword : String) (owner : PileOwner)
    (index : Nat) : Compiled (List DealPair) := do
  let text ← block.requireParamsAt index keyword
  let words := Text.words text
  if words.length % 2 != 0 then throw (block.refused keyword text)
  readPairs block layout keyword owner words

/-- Reads all lines of a keyword that lists piles. -/
def readLines (block : Document) (layout : Layout) (keyword : String) (owner : PileOwner) :
    Compiled (List DealPair) := do
  let lines ← (block.positions keyword).mapM (readLine block layout keyword owner)
  return lines.flatten

/-- The value of a keyword, if it stands in the block. -/
def readSetting {α : Type} (block : Document) (keyword : String) (default : α)
    (read : String → Option α) : Compiled α :=
  match block.params? keyword with
  | some value => requireValue block keyword value (read value)
  | none => .ok default

/-- Compiles the lines of a deal block. Reference: `DealConfig.compile`. -/
def compile (block : Document) (layout : Layout) : Compiled DealPlan := do
  let passes ← readSetting block "shuffle" 1 Text.shortCount?
  let direction ← readSetting block "direction" .clockwise Direction.ofWord?
  let collate ← readSetting block "collate" false readCollate?
  let playerPiles ← readLines block layout "player-piles" .player
  let commonPiles ← readLines block layout "common-piles" .common
  let plan : DealPlan := { passes, direction, collate, playerPiles, commonPiles }
  if plan.pairs.countP (·.count == .all) > 1 then throw (.multipleDealAll block.identity)
  return plan

end HouseRules.DealPlan
