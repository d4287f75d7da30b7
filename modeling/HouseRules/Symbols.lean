/-!
# Symbols

A set of words, each held once, in the order in which they were first added.

Reference: `Interner` (specification 9, E2.1).
-/

namespace HouseRules

/-- Words, each held once. Reference: `Interner`. -/
structure Symbols where
  words : List String
  deriving Repr, DecidableEq, Inhabited

namespace Symbols

/-- No words. -/
def empty : Symbols := ⟨[]⟩

/-- Whether a word is held. -/
def contains (s : Symbols) (word : String) : Bool := s.words.contains word

/-- The word that is held and equals the given one. -/
def lookup? (s : Symbols) (word : String) : Option String := s.words.find? (· == word)

/-- Adds a word unless it is held already. -/
def insert (s : Symbols) (word : String) : Symbols :=
  if s.contains word then s else ⟨s.words ++ [word]⟩

/-- The number of words. -/
def size (s : Symbols) : Nat := s.words.length

/-- The words of a list, each once, in the order of their first occurrence. -/
def ofList (words : List String) : Symbols := words.foldl insert empty

end Symbols

end HouseRules
