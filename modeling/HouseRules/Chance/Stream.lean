import HouseRules.Chance.Block
import HouseRules.Chance.KeyedHash

/-!
# Streams of random words

A stream is an endless sequence of 32-bit words fixed by a 64-bit seed: the words of block 0, of
block 1 and so on, under a key that a linear congruence spreads from the seed. `Stream.next` takes
one word and gives the rest of the stream back, so a shuffle is a function of its stream.

A game draws each kind of randomness from a stream of its own, `Stream.forContext`, whose seed is
the hash of the parent's seed and the purpose.

Reference: `GameRng` (specification E1.2, E1.5).
-/

namespace HouseRules.Chance

/-- A stream of words. Reference: `GameRng`. -/
structure Stream where
  /-- The seed that fixes the stream. -/
  seed : UInt64
  key : Key
  /-- Number of the first block not yet begun. -/
  block : UInt64
  /-- Words of the last begun block that are not yet taken. -/
  pending : List UInt32
  deriving Repr

/-- One step of the congruence that spreads a seed. -/
def spreadStep (state : UInt64) : UInt64 := state * 6364136223846793005 + 11634580027462260723

/-- The key word that a state of the congruence yields. -/
def spreadWord (state : UInt64) : UInt32 :=
  let mixed := (((state >>> 18) ^^^ state) >>> 27).toUInt32
  let turn := (state >>> 59).toUInt32
  (mixed >>> turn) ||| (mixed <<< ((32 - turn) % 32))

/-- The first `n` key words after a state. -/
def spreadWords : (n : Nat) → UInt64 → List UInt32
  | 0, _ => []
  | n + 1, state => spreadWord (spreadStep state) :: spreadWords n (spreadStep state)

@[simp] theorem length_spreadWords (n : Nat) (state : UInt64) :
    (spreadWords n state).length = n := by
  induction n generalizing state with
  | zero => rfl
  | succ n ih => simp [spreadWords, ih]

/-- The key of a seed. -/
def seedKey (seed : UInt64) : Key := ⟨(spreadWords 8 seed).toArray, by simp⟩

/-- The stream of a seed, from its first word. Reference: `GameRng.new`. -/
def Stream.ofSeed (seed : UInt64) : Stream := ⟨seed, seedKey seed, 0, []⟩

/-- The stream of the same seed for one purpose. Reference: `GameRng.for_context`. -/
def Stream.forContext (s : Stream) (context : String) : Stream :=
  .ofSeed (keyedHash (wordBytes s.seed ++ context.toUTF8.toList ++ [0xff]))

/-- Takes the next word. -/
def Stream.next (s : Stream) : UInt32 × Stream :=
  match s.pending with
  | word :: rest => (word, { s with pending := rest })
  | [] =>
    let words := HouseRules.Chance.block s.key s.block
    (words[0], { s with block := s.block + 1, pending := words.toList.tail })

end HouseRules.Chance
