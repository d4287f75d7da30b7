/-!
# Cards

A card is one physical card: its place in the deck's catalog, its face and perhaps its group (a
suit, say). Two cards are compared by face, by group, or by both (`Card.alike`);
cards without a group are alike in group.

Reference: `Card`, `CardId` (specification 3, E2.1).
-/

namespace HouseRules

/-- The place of a card in its deck. Reference: `CardId`. -/
abbrev CardId := Nat

/-- A physical card. Reference: `Card`. -/
structure Card where
  id : CardId
  face : String
  group : Option String
  deriving Repr, DecidableEq, Inhabited

namespace Card

/-- How messages name a card. -/
def describe (c : Card) : String :=
  match c.group with
  | some group => c.face ++ " of " ++ group
  | none => c.face

/-- Whether two cards have one face. -/
def sameFace (a b : Card) : Bool := a.face == b.face

/-- Whether two cards have one group, or neither has any. -/
def sameGroup (a b : Card) : Bool := a.group == b.group

/-- Whether two cards agree in face and group. Reference: `Card.same_attributes`. -/
def alike (a b : Card) : Bool := a.sameFace b && a.sameGroup b

end Card

end HouseRules
