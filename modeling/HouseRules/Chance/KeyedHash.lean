/-!
# A short hash of bytes

The SipHash function with one round a word, three rounds at the end and the key zero. Bytes are
taken eight at a time as a little-endian word; the last word holds the bytes left over and, in its
top byte, the length modulo 256.

Reference: the hash behind `GameRng.for_context`.
-/

namespace HouseRules.Chance

/-- The four words that hashing works on. -/
structure HashState where
  v0 : UInt64
  v1 : UInt64
  v2 : UInt64
  v3 : UInt64

/-- The word turned `amount` places to the left. -/
def rotateLeft64 (x amount : UInt64) : UInt64 := (x <<< amount) ||| (x >>> (64 - amount))

/-- The state before the first byte, for the key zero. -/
def HashState.start : HashState :=
  ⟨0x736f6d6570736575, 0x646f72616e646f6d, 0x6c7967656e657261, 0x7465646279746573⟩

/-- One round. -/
def HashState.round (s : HashState) : HashState :=
  let v0 := s.v0 + s.v1
  let v1 := rotateLeft64 s.v1 13 ^^^ v0
  let v0 := rotateLeft64 v0 32
  let v2 := s.v2 + s.v3
  let v3 := rotateLeft64 s.v3 16 ^^^ v2
  let v0 := v0 + v3
  let v3 := rotateLeft64 v3 21 ^^^ v0
  let v2 := v2 + v1
  let v1 := rotateLeft64 v1 17 ^^^ v2
  let v2 := rotateLeft64 v2 32
  ⟨v0, v1, v2, v3⟩

/-- Takes in one word. -/
def HashState.absorb (s : HashState) (word : UInt64) : HashState :=
  let s := HashState.round { s with v3 := s.v3 ^^^ word }
  { s with v0 := s.v0 ^^^ word }

/-- Ends the hash and folds the state into one word. -/
def HashState.finish (s : HashState) : UInt64 :=
  let s := { s with v2 := s.v2 ^^^ 0xff }
  let s := s.round.round.round
  s.v0 ^^^ s.v1 ^^^ s.v2 ^^^ s.v3

/-- The word whose bytes, lowest first, are given. -/
def littleEndian (bytes : List UInt8) : UInt64 :=
  bytes.foldr (fun b acc => acc <<< 8 ||| b.toUInt64) 0

/-- Takes in full words while there are eight bytes, then the rest under the length `total`. -/
def absorbBytes (total : Nat) (s : HashState) : List UInt8 → HashState
  | b0 :: b1 :: b2 :: b3 :: b4 :: b5 :: b6 :: b7 :: rest =>
    absorbBytes total (s.absorb (littleEndian [b0, b1, b2, b3, b4, b5, b6, b7])) rest
  | rest => s.absorb (littleEndian rest ||| (UInt64.ofNat total <<< 56))

/-- The hash of a list of bytes. -/
def keyedHash (bytes : List UInt8) : UInt64 :=
  (absorbBytes bytes.length HashState.start bytes).finish

/-- The eight bytes of a word, lowest first. -/
def wordBytes (x : UInt64) : List UInt8 :=
  [x.toUInt8, (x >>> 8).toUInt8, (x >>> 16).toUInt8, (x >>> 24).toUInt8, (x >>> 32).toUInt8,
    (x >>> 40).toUInt8, (x >>> 48).toUInt8, (x >>> 56).toUInt8]

end HouseRules.Chance
