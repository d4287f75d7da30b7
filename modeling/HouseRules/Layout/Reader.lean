import HouseRules.Document
import HouseRules.Layout
import HouseRules.Text.Numeral

/-!
# Reading board documents

```text
cardpile hand
owner player
visibility owner
cardpile discard
owner common
visible 1
board-layout
shape circle
common-piles discard
player-piles hand
```

A `cardpile` line opens a declaration, which the next opener or the `board-layout` section ends. The
section itself ends at the next `cardpile`. Piles that its lists leave out are presented after those
listed, in the order of declaration.

Reference: `BoardLayout.compile` (specification E2.2).
-/

namespace HouseRules.Layout

/-- The value of a word, or the error that the keyword does not take it. -/
def wordValue {α : Type} (doc : Document) (keyword value : String)
    (ofWord? : String → Option α) : Compiled α :=
  orFail (doc.refused keyword value) (ofWord? value)

/-- Reads one line of a declaration. -/
def readPolicyLine (doc : Document) (policy : PilePolicy) (index : Nat) : Compiled PilePolicy := do
  let line := (doc.lines[index]?).getD ""
  let keyword := Text.firstWord line
  let value ← doc.requireParamsAt index keyword
  match keyword with
  | "owner" => return { policy with owner := ← wordValue doc keyword value PileOwner.ofWord? }
  | "visibility" =>
    return { policy with visibility := ← wordValue doc keyword value Visibility.ofWord? }
  | "visible" => return { policy with visible := some (← wordValue doc keyword value Text.count?) }
  | "placement" =>
    return { policy with placement := ← wordValue doc keyword value Placement.ofWord? }
  | "orientation" =>
    return { policy with orientation := ← wordValue doc keyword value Orientation.ofWord? }
  | "tiling" => return { policy with tiling := ← wordValue doc keyword value Tiling.ofWord? }
  | "removal" => return { policy with removal := ← wordValue doc keyword value Removal.ofWord? }
  | _ => throw (doc.refused "cardpile" line)

/-- Reads the lines `start` to before `stop` of a declaration. Reference:
`BoardLayout.compile_policy`. -/
def readPolicy (doc : Document) (start stop : Nat) : Compiled PilePolicy :=
  ((List.range stop).drop start).foldlM (readPolicyLine doc) {}

/-- Where the declaration that opens at `opener` ends. -/
def declarationEnd (doc : Document) (opener : Nat) : Nat :=
  let next := doc.findFrom? "cardpile" (opener + 1)
  let ending := (doc.find? "board-layout").filter (opener < ·)
  match next, ending with
  | some a, some b => min a b
  | some a, none => a
  | none, some b => b
  | none, none => doc.size

/-- Reads the declaration that opens at `opener` and puts it after those read before. -/
def readDeclaration (doc : Document) (piles : List PileDeclaration) (opener : Nat) :
    Compiled (List PileDeclaration) := do
  let name ← doc.requireParamsAt opener "cardpile"
  if name.toList.any (fun c => c == '.' || c == '@') || (Text.words name).length != 1 then
    throw (doc.refused "cardpile" name)
  if piles.any (·.name == name) then throw (.duplicateComponent "cardpile" name)
  let policy ← readPolicy doc (opener + 1) (declarationEnd doc opener)
  return piles ++ [⟨name, policy⟩]

/-- The slots that a list in the layout section names, all of which must have the owner. Reference:
`BoardLayout.resolve_list`. -/
def readSlots (doc : Document) (l : Layout) (names : String) (owner : PileOwner) :
    Compiled (List Slot) :=
  (Text.words names).mapM fun name => do
    let slot ← orFail (.unresolvedReference "cardpile" name (doc.identity ++ " board-layout"))
      (l.slot? name)
    if l.owner? slot != some owner then
      throw (.invalidComponent "cardpile" name "listed under the wrong owner in board-layout")
    return slot

/-- Reads one line of the layout section. -/
def readSectionLine (doc : Document) (l : Layout) (index : Nat) : Compiled Layout := do
  let line := (doc.lines[index]?).getD ""
  let value := doc.paramsAt index
  match Text.firstWord line with
  | "shape" => return { l with shape := some value }
  | "player-layout" => return { l with playerLayout := some value }
  | "dealer" => return { l with dealer := some value }
  | "common-piles" => return { l with commonPiles := ← readSlots doc l value .common }
  | "player-piles" => return { l with playerPiles := ← readSlots doc l value .player }
  | _ => throw (doc.refused "board-layout" line)

/-- Reads the layout section that opens at `opener`. -/
def readSection (doc : Document) (l : Layout) (opener : Nat) : Compiled Layout :=
  let stop := (doc.findFrom? "cardpile" (opener + 1)).getD doc.size
  ((List.range stop).drop (opener + 1)).foldlM (readSectionLine doc) l

/-- A listed order followed by the slots that it leaves out. -/
def complete (listed slots : List Slot) : List Slot :=
  slots.foldl (fun order slot => if order.contains slot then order else order ++ [slot]) listed

/-- Compiles a board document. Reference: `BoardLayout.compile`. -/
def compile (doc : Document) : Compiled Layout := do
  let openers := doc.positions "cardpile"
  if openers.isEmpty then throw (doc.missing "cardpile")
  let piles ← openers.foldlM (readDeclaration doc) []
  let declared : Layout := ⟨doc.name, piles, none, none, none, [], []⟩
  let l ←
    match doc.find? "board-layout" with
    | some opener => readSection doc declared opener
    | none => pure declared
  return { l with
    commonPiles := complete l.commonPiles (l.slotsOf .common)
    playerPiles := complete l.playerPiles (l.slotsOf .player) }

end HouseRules.Layout
