import HouseRules.Deck
import HouseRules.Document
import HouseRules.Text.Numeral

/-!
# Reading deck documents

```text
size 52
faces ace 2 3 4 5 6 7 8 9 10 jack queen king
grouping suit
groups hearts diamonds clubs spades
cards all
```

With `cards all` the deck holds every face in every group. Otherwise each line after `cards` is an
entry: the index of a face, the index of a group if the deck has groups, and with `specify-quantity`
the number of copies. The entries are read first, then counted, and only a deck whose entries add up
to the declared size is laid out; so an absurd quantity costs nothing.

Reference: `Deck.compile` (specification E2.1).
-/

namespace HouseRules

/-- One line of a deck's list of cards. -/
structure DeckEntry where
  face : String
  group : Option String
  quantity : Nat
  deriving Repr, DecidableEq, Inhabited

/-- The attributes of every copy that the entries stand for. -/
def DeckEntry.expand (entries : List DeckEntry) : List (String × Option String) :=
  entries.flatMap fun e => List.replicate e.quantity (e.face, e.group)

/-- The number of copies that the entries stand for. -/
def DeckEntry.total (entries : List DeckEntry) : Nat :=
  entries.foldr (fun e n => e.quantity + n) 0

/-- Laying out gives as many cards as the entries count. -/
@[simp] theorem DeckEntry.length_expand (entries : List DeckEntry) :
    (expand entries).length = total entries := by
  induction entries with
  | nil => rfl
  | cons e entries ih =>
    rw [expand, List.flatMap_cons, List.length_append, List.length_replicate, total,
      List.foldr_cons]
    exact congrArg (e.quantity + ·) ih

namespace Deck

/-- The largest deck. -/
def maxSize : Nat := 65535

/-- Every face in every group, or the faces alone if there are no groups. -/
def allPairs (faces groups : List String) : List (String × Option String) :=
  faces.flatMap fun face =>
    if groups.isEmpty then [(face, none)] else groups.map fun group => (face, some group)

/-- Cards of the given attributes, numbered from zero. -/
def number (pairs : List (String × Option String)) : List Card :=
  pairs.zipIdx.map fun ((face, group), i) => ⟨i, face, group⟩

@[simp] theorem length_number (pairs : List (String × Option String)) :
    (number pairs).length = pairs.length := by
  simp [number]

/-- What the head of a deck document declares. -/
structure Head where
  size : Nat
  faces : List String
  groups : List String
  grouping : Option String
  /-- Whether entries end with a number of copies. -/
  counted : Bool
  deriving Repr, DecidableEq

/-- The number of fields of an entry. -/
def Head.fieldCount (h : Head) : Nat :=
  1 + (if h.groups.isEmpty then 0 else 1) + (if h.counted then 1 else 0)

/-- Reads the head of a deck document. -/
def readHead (doc : Document) : Compiled Head := do
  let sizeText ← doc.requireParams "size"
  let size ← orFail (doc.refused "size" sizeText) (Text.count? sizeText)
  if size > maxSize then throw (doc.refused "size" sizeText)
  let faces ← doc.requireParams "faces"
  return {
    size
    faces := Text.words faces
    groups := Text.words ((doc.params? "groups").getD "")
    grouping := (doc.params? "grouping").filter (· != "")
    counted := doc.has "specify-quantity" }

/-- The name that a text gives by its index in a list. -/
def indexed (doc : Document) (what : String) (names : List String) (text : String) :
    Compiled String :=
  orFail (.invalidReference doc.identity what text)
    ((Text.count? text).bind fun i => names[i]?)

/-- Reads one entry. -/
def readEntry (doc : Document) (head : Head) (line : String) : Compiled DeckEntry := do
  let fields := Text.fields line
  if head.groups.isEmpty && fields.length == head.fieldCount + 1 then
    throw (.invalidReference doc.identity "group index (deck declares no groups)"
      (fields[1]?.getD ""))
  if fields.length != head.fieldCount then throw (doc.refused "cards" line)
  let face ← indexed doc "face index" head.faces (fields[0]?.getD "")
  let group ←
    if head.groups.isEmpty then pure none
    else some <$> indexed doc "group index" head.groups (fields[1]?.getD "")
  let quantity ←
    if head.counted then
      let text := fields[head.fieldCount - 1]?.getD ""
      orFail (doc.refused "quantity" text) (Text.count? text)
    else pure 1
  return ⟨face, group, quantity⟩

/-- The error for a deck whose cards do not add up to its declared size. -/
def wrongSize (doc : Document) (head : Head) (found : Nat) : CompileError :=
  .countMismatch doc.identity "cards" head.size found

/-- The attributes of all cards of a deck document. Counting entries stops one past the declared
size. -/
def readPairs (doc : Document) (head : Head) (cardsAt : Nat) :
    Compiled (List (String × Option String)) := do
  if doc.paramsAt cardsAt == "all" then
    let pairs := allPairs head.faces head.groups
    if pairs.length == head.size then return pairs
    else throw (wrongSize doc head pairs.length)
  else
    let entries ← (doc.lines.drop (cardsAt + 1)).mapM (readEntry doc head)
    let total := DeckEntry.total entries
    if total == head.size then return DeckEntry.expand entries
    else throw (wrongSize doc head (min total (head.size + 1)))

/-- Compiles a deck document. Reference: `Deck.compile`. -/
def compile (doc : Document) : Compiled Deck := do
  let head ← readHead doc
  let cardsAt ← doc.require "cards"
  let pairs ← readPairs doc head cardsAt
  return {
    name := doc.name
    cards := number pairs
    faces := head.faces
    groups := head.groups
    grouping := head.grouping }

end Deck

end HouseRules
