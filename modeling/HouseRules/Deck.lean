import HouseRules.Card
import HouseRules.Chance.Shuffle
import HouseRules.Symbols

/-!
# Decks and stocks

A deck is the catalog of the cards of a game with the attributes they may have. A stock is a deck on
the table: what is left of it to deal, in dealing order. Shuffling gathers the whole deck again and
brings it into a random order, so a stock holds cards of its deck only.

Reference: `Deck` (specification 3, 4.4), whose catalog and undealt rest are told apart here.
-/

namespace HouseRules

open Chance (Stream)

/-- The catalog of a game's cards. Reference: `Deck`. -/
structure Deck where
  name : String
  cards : List Card
  /-- The faces a card may have, as declared. -/
  faces : List String
  /-- The groups a card may have, as declared. -/
  groups : List String
  /-- What the groups are called, `suit` for instance. -/
  grouping : Option String
  deriving Repr, DecidableEq, Inhabited

namespace Deck

/-- A deck of given cards, with the faces and groups found on them. -/
def ofCards (name : String) (cards : List Card) : Deck where
  name := name
  cards := cards
  faces := (Symbols.ofList (cards.map (·.face))).words
  groups := (Symbols.ofList (cards.filterMap (·.group))).words
  grouping := none

/-- The number of cards. -/
def size (d : Deck) : Nat := d.cards.length

/-- The card at a place of the catalog. -/
def card? (d : Deck) (id : CardId) : Option Card := d.cards[id]?

/-- Whether the deck declares a face. -/
def hasFace (d : Deck) (name : String) : Bool := d.faces.contains name

/-- Whether the deck declares a group. -/
def hasGroup (d : Deck) (name : String) : Bool := d.groups.contains name

end Deck

/-- A deck with what is left of it to deal. Reference: the dealing order and the cursor of
`Deck`. -/
structure Stock where
  deck : Deck
  /-- The cards not yet dealt, the next one first. -/
  rest : List Card
  deriving Repr, DecidableEq, Inhabited

namespace Stock

/-- The whole deck, in the order of the catalog. -/
def ofDeck (d : Deck) : Stock := ⟨d, d.cards⟩

/-- The number of cards left. -/
def remaining (s : Stock) : Nat := s.rest.length

/-- Takes the next card, if one is left. Reference: `Deck.deal`. -/
def deal (s : Stock) : Option Card × Stock :=
  match s.rest with
  | [] => (none, s)
  | card :: rest => (some card, { s with rest })

/-- Gathers the whole deck in the order of the catalog. -/
def gather (s : Stock) : Stock := ofDeck s.deck

/-- Gathers the whole deck and shuffles it a number of times. Reference: `Deck.shuffle`. -/
def shuffle (s : Stock) (passes : Nat) (stream : Stream) : Stock × Stream :=
  let (order, stream) := Chance.shuffleTimes passes s.deck.cards stream
  ({ s with rest := order }, stream)

@[simp] theorem remaining_ofDeck (d : Deck) : (ofDeck d).remaining = d.size := rfl

@[simp] theorem deck_shuffle (s : Stock) (passes : Nat) (stream : Stream) :
    (s.shuffle passes stream).1.deck = s.deck := rfl

/-- A shuffled stock is the deck in some order. -/
theorem rest_shuffle_perm (s : Stock) (passes : Nat) (stream : Stream) :
    (s.shuffle passes stream).1.rest.Perm s.deck.cards :=
  Chance.shuffleTimes_perm passes s.deck.cards stream

end Stock

end HouseRules
