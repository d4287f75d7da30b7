import HouseRules.Deck
import HouseRules.Document

/-!
# Rankings

A ranking lists faces and groups in tiers, the highest first. The key of a card is the score of its
face and then the score of its group, an attribute that is not listed scoring zero, and keys compare
face first. Since the order of cards is the order of their keys, it is a total preorder.

Scores are unbounded here and have 32 bits in the engine. So the two agree on ranking blocks of
fewer than 2 ^ 32 lines.

Reference: `Ranking` (specification 3, E2.3).
-/

namespace HouseRules

/-- The scores of ranked attributes, those listed last in front. Reference: `Ranking`. -/
structure Ranking where
  faces : List (String × Nat)
  groups : List (String × Nat)
  deriving Repr, DecidableEq, Inhabited

namespace Ranking

/-- The ranking under which all cards are equal. -/
def flat : Ranking := ⟨[], []⟩

/-- Whether nothing is ranked. -/
def isFlat (r : Ranking) : Bool := r.faces.isEmpty && r.groups.isEmpty

/-- The score of an attribute: the one listed last, or zero. -/
def score (scores : List (String × Nat)) (name : String) : Nat := (scores.lookup name).getD 0

/-- Gives a word its score, as a face, as a group or as both; `none` if the deck has neither. -/
def addWord? (deck : Deck) (score : Nat) (r : Ranking) (word : String) : Option Ranking :=
  match deck.hasFace word, deck.hasGroup word with
  | false, false => none
  | face, group => some {
      faces := if face then (word, score) :: r.faces else r.faces
      groups := if group then (word, score) :: r.groups else r.groups }

/-- Reads one tier. -/
def addTier (block : Document) (deck : Deck) (r : Ranking) (score : Nat) (line : String) :
    Compiled Ranking :=
  (Text.words line).foldlM (fun r word =>
    orFail (.invalidReference block.identity ("face or group of deck `" ++ deck.name ++ "`") word)
      (addWord? deck score r word)) r

/-- Reads the lines of a ranking block, the first tier scoring the number of tiers. Reference:
`Ranking.compile`. -/
def compile (block : Document) (deck : Deck) : Compiled Ranking :=
  block.lines.zipIdx.foldlM (fun r (line, i) => addTier block deck r (block.size - i) line) flat

/-- The scores of a card's face and group. Reference: `Ranking.key`. -/
def key (r : Ranking) (c : Card) : Nat × Nat :=
  (score r.faces c.face, (c.group.map (score r.groups)).getD 0)

/-- How two cards compare. Reference: `Ranking.compare`. -/
def compare (r : Ranking) (a b : Card) : Ordering :=
  (Ord.compare (r.key a).1 (r.key b).1).then (Ord.compare (r.key a).2 (r.key b).2)

/-- Whether the first card is strictly higher. Reference: `Ranking.outranks`. -/
def outranks (r : Ranking) (a b : Card) : Bool := r.compare a b == .gt

/-- Whether two cards have one rank. -/
def tied (r : Ranking) (a b : Card) : Bool := r.compare a b == .eq

/-- Cards have one rank exactly when their keys are equal. -/
theorem tied_iff (r : Ranking) (a b : Card) : r.tied a b = true ↔ r.key a = r.key b := by
  simp [tied, compare, Ordering.then_eq_eq, Prod.ext_iff]

end Ranking

end HouseRules
