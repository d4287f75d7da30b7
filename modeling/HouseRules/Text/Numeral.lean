/-!
# Reading decimal numerals

A numeral is a run of ASCII digits, read in base ten, with an optional sign in front: `+` for
natural numbers, `+` or `-` for integers. Nothing else may stand around it, and a number outside its
bounds is refused, so the readers are partial in two ways and answer with an `Option`.

Reference: the numerals of specification E2, as the readers of decks, deals and tokens take them.
-/

namespace HouseRules.Text

/-- The value of a run of digits read after `acc`; `none` at the first other character. -/
def digitsFrom (acc : Nat) : List Char → Option Nat
  | [] => some acc
  | c :: cs =>
    if c.isDigit then digitsFrom (acc * 10 + (c.toNat - '0'.toNat)) cs else none

/-- The value of a non-empty run of ASCII digits. -/
def digits? : List Char → Option Nat
  | [] => none
  | c :: cs => digitsFrom 0 (c :: cs)

/-- A natural number below `bound`, perhaps after a `+`. -/
def natBelow? (bound : Nat) (s : String) : Option Nat :=
  let value :=
    match s.toList with
    | '+' :: cs => digits? cs
    | cs => digits? cs
  value.filter (· < bound)

/-- A count: a natural number of at most 64 bits. -/
def count? (s : String) : Option Nat := natBelow? UInt64.size s

/-- A natural number of at most 32 bits. -/
def shortCount? (s : String) : Option Nat := natBelow? UInt32.size s

/-- An integer of at most 64 bits with its sign. -/
def integer? (s : String) : Option Int :=
  let value : Option Int :=
    match s.toList with
    | '+' :: cs => (digits? cs).map Int.ofNat
    | '-' :: cs => (digits? cs).map fun n => -Int.ofNat n
    | cs => (digits? cs).map Int.ofNat
  value.filter fun n => Int64.minValue.toInt ≤ n && n ≤ Int64.maxValue.toInt

end HouseRules.Text
