import HouseRules.Deal.Reader

/-!
# Writing deal blocks

A plan is written with one line for each setting, and its piles on as many lines as wanted: how the
pairs are parted into lines does not matter to the reader, so the writer is given the parts.

Reference: none; the other direction of `DealConfig.compile`.
-/

namespace HouseRules

/-- The word for a number of cards. -/
def DealCount.word : DealCount → String
  | .exactly n => s!"{n}"
  | .all => "all"

namespace DealPlan

/-- The words for a pile and its count. -/
def pairWords (layout : Layout) (pair : DealPair) : List String :=
  [layout.nameOf pair.slot, pair.count.word]

/-- The line that lists some pairs under a keyword. -/
def pairLine (layout : Layout) (keyword : String) (pairs : List DealPair) : String :=
  " ".intercalate (keyword :: pairs.flatMap (pairWords layout))

/-- The lines of a deal block with the settings of a plan, and with piles parted into lines. -/
def blockLines (layout : Layout) (settings : DealPlan)
    (playerLines commonLines : List (List DealPair)) : List String :=
  let passes := settings.passes
  [s!"shuffle {passes}", "direction " ++ settings.direction.word,
    if settings.collate then "collate true" else "collate false"] ++
    playerLines.map (pairLine layout "player-piles") ++
    commonLines.map (pairLine layout "common-piles")

end DealPlan

end HouseRules
