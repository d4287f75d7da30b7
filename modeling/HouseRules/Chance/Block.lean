/-!
# Blocks of key stream

The ChaCha block function with eight rounds. A block is sixteen 32-bit words: four constants, eight
key words, the number of the block in two words, and two zero words. Four double rounds mix it, a
double round being four quarter rounds on the columns and four on the diagonals, and the input is
added back at the end. So the block of a given number is a function of the key alone.

Reference: the ChaCha generator of eight rounds from which `GameRng` draws (specification E1.2).
-/

namespace HouseRules.Chance

/-- A square of sixteen words. -/
abbrev Block := Vector UInt32 16

/-- The key: eight words. -/
abbrev Key := Vector UInt32 8

/-- The word turned `amount` places to the left. -/
def rotateLeft (x amount : UInt32) : UInt32 := (x <<< amount) ||| (x >>> (32 - amount))

/-- Adds the second word to the first, mixes the sum into the third and turns that one. -/
def addXorRotate (b : Block) (i j k : Fin 16) (amount : UInt32) : Block :=
  let sum := b[i] + b[j]
  (b.set i sum).set k (rotateLeft (b[k] ^^^ sum) amount)

/-- Mixes four words of a block. -/
def quarterRound (b : Block) (i j k l : Fin 16) : Block :=
  let b := addXorRotate b i j l 16
  let b := addXorRotate b k l j 12
  let b := addXorRotate b i j l 8
  addXorRotate b k l j 7

/-- Mixes the columns of a block and then its diagonals. -/
def doubleRound (b : Block) : Block :=
  let b := quarterRound b 0 4 8 12
  let b := quarterRound b 1 5 9 13
  let b := quarterRound b 2 6 10 14
  let b := quarterRound b 3 7 11 15
  let b := quarterRound b 0 5 10 15
  let b := quarterRound b 1 6 11 12
  let b := quarterRound b 2 7 8 13
  quarterRound b 3 4 9 14

/-- A block before mixing. -/
def initialBlock (key : Key) (number : UInt64) : Block :=
  #v[0x61707865, 0x3320646e, 0x79622d32, 0x6b206574,
    key[0], key[1], key[2], key[3], key[4], key[5], key[6], key[7],
    number.toUInt32, (number >>> 32).toUInt32, 0, 0]

/-- The block of a given number. -/
def block (key : Key) (number : UInt64) : Block :=
  let start := initialBlock key number
  let mixed := doubleRound (doubleRound (doubleRound (doubleRound start)))
  Vector.ofFn fun i => mixed[i] + start[i]

end HouseRules.Chance
