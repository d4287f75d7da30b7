import HouseRules.Chance.Stream

/-!
# Shuffling

`Stream.below` draws a number below a bound without bias: a word is scaled to the bound by a product
of double width, and drawn again when its low half falls into the part that would favour some
numbers. The engine's generator draws on until a word is accepted. Here `drawBelow` gives up after
`attempts` words, so that a draw ends whatever the stream holds. Less than half of all words are
refused, and the two differ only where so many words in a row would be.

`shuffle` exchanges every position from the last down with one at or below it. Each step is an
exchange, so the result is a permutation of the list, whichever numbers are drawn
(`shuffle_perm`). What is proved of all sessions uses of shuffling only that it permutes
(`shuffle_perm`, `shuffleTimes_perm`) and does not look at what it permutes (`shuffleTimes_map`). So
it holds whatever numbers are drawn, by this generator or by one that draws on.

Reference: `GameRng.shuffle` (specification E1.2).
-/

namespace HouseRules.Chance

/-- How often one draw tries before it settles for zero. The engine's generator has no limit. -/
def attempts : Nat := 512

/-- How far `n` can be doubled within 32 bits. -/
def leadingZeros (n : Nat) : Nat := 31 - Nat.log2 n

/-- The largest low half that is accepted when drawing below `n`. -/
def acceptedZone (n : Nat) : Nat := (n <<< leadingZeros n) - 1

/-- Draws until a word is accepted, at most as often as the first argument says. -/
def drawBelow (n : Nat) : Nat → Stream → Nat × Stream
  | 0, s => (0, s)
  | tries + 1, s =>
    let (word, s) := s.next
    let product := word.toNat * n
    if product % UInt32.size ≤ acceptedZone n then (product / UInt32.size, s)
    else drawBelow n tries s

/-- A number below `n`, for `n` of at most 32 bits. -/
def Stream.below (s : Stream) (n : Nat) : Nat × Stream := drawBelow n attempts s

/-- Exchanges each of the positions `i`, …, 1 with a position not above it. -/
def shuffleFrom {α : Type} : (i : Nat) → Array α → Stream → Array α × Stream
  | 0, xs, s => (xs, s)
  | i + 1, xs, s =>
    let (j, s) := s.below (i + 2)
    shuffleFrom i (xs.swapIfInBounds (i + 1) j) s

/-- The list in a random order. Reference: `GameRng.shuffle`. -/
def shuffle {α : Type} (xs : List α) (s : Stream) : List α × Stream :=
  let (shuffled, s) := shuffleFrom (xs.length - 1) xs.toArray s
  (shuffled.toList, s)

/-- The list shuffled a number of times over. Reference: `GameRng.shuffle_passes`. -/
def shuffleTimes {α : Type} : (passes : Nat) → List α → Stream → List α × Stream
  | 0, xs, s => (xs, s)
  | passes + 1, xs, s =>
    let (xs, s) := shuffle xs s
    shuffleTimes passes xs s

/-- Exchanging two places, or leaving a place that is not there alone, permutes the elements. -/
theorem swapIfInBounds_perm {α : Type} (xs : Array α) (i j : Nat) :
    (xs.swapIfInBounds i j).Perm xs := by
  unfold Array.swapIfInBounds
  split
  · split
    · exact Array.swap_perm ..
    · exact Array.Perm.refl _
  · exact Array.Perm.refl _

/-- Each step of a shuffle exchanges two places, so that all together permute the elements. -/
theorem shuffleFrom_perm {α : Type} (i : Nat) (xs : Array α) (s : Stream) :
    (shuffleFrom i xs s).1.Perm xs := by
  induction i generalizing xs s with
  | zero => exact Array.Perm.refl _
  | succ i ih => exact (ih _ _).trans (swapIfInBounds_perm _ _ _)

/-- A shuffled list holds the same elements, each as often. -/
theorem shuffle_perm {α : Type} (xs : List α) (s : Stream) : (shuffle xs s).1.Perm xs := by
  have h := shuffleFrom_perm (xs.length - 1) xs.toArray s
  simpa [shuffle] using Array.perm_iff_toList_perm.1 h

/-- So does a list shuffled many times over. -/
theorem shuffleTimes_perm {α : Type} (passes : Nat) (xs : List α) (s : Stream) :
    (shuffleTimes passes xs s).1.Perm xs := by
  induction passes generalizing xs s with
  | zero => exact List.Perm.refl _
  | succ passes ih => exact (ih _ _).trans (shuffle_perm _ _)

end HouseRules.Chance
