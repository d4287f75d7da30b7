/-!
# Seats and directions

Players sit at a round table, in seats numbered from zero. `Direction.step` is one step around the
table and `Direction.walk` the seats met by stepping on. A seat number is one byte, so a step around
a table of more than 256 seats wraps; the games themselves admit at most 255 players, where it never
does (`Direction.step_lt`).

Reference: `PlayerId`, `Direction` (specification 3).
-/

namespace HouseRules

/-- A place at the table. Reference: `PlayerId`. -/
structure Seat where
  index : Nat
  deriving Repr, DecidableEq, Inhabited

/-- The seat that starts. -/
def Seat.first : Seat := ⟨0⟩

/-- The seat of a number, which is one byte. -/
def Seat.ofNat (n : Nat) : Seat := ⟨n % 256⟩

@[simp] theorem Seat.ofNat_index {n : Nat} (h : n < 256) : (Seat.ofNat n).index = n :=
  Nat.mod_eq_of_lt h

/-- How messages name a seat. -/
def Seat.describe (s : Seat) : String :=
  let n := s.index
  s!"Seat {n}"

/-- The seats of a table for `count` players, of which at most 255 are numbered. -/
def Seat.all (count : Nat) : List Seat := (List.range (min count 255)).map Seat.mk

@[simp] theorem Seat.length_all (count : Nat) : (Seat.all count).length = min count 255 := by
  simp [Seat.all]

/-- The seats of a number of players are those below it, as far as seats are numbered. -/
theorem Seat.mem_all {count : Nat} {s : Seat} :
    s ∈ Seat.all count ↔ s.index < count ∧ s.index < 255 := by
  cases s
  simp only [Seat.all, List.mem_map, List.mem_range, Seat.mk.injEq, exists_eq_right, Nat.lt_min]

/-- The direction of play. Reference: `Direction`. -/
inductive Direction where
  | clockwise
  | counterclockwise
  deriving Repr, DecidableEq, Inhabited

/-- The direction a word names. -/
def Direction.ofWord? : String → Option Direction
  | "clockwise" => some .clockwise
  | "counterclockwise" => some .counterclockwise
  | _ => none

/-- The word for a direction. -/
def Direction.word : Direction → String
  | .clockwise => "clockwise"
  | .counterclockwise => "counterclockwise"

/-- The word for a direction names it. -/
@[simp] theorem Direction.ofWord?_word (d : Direction) : Direction.ofWord? d.word = some d := by
  cases d <;> rfl

/-- The other direction. -/
def Direction.reversed : Direction → Direction
  | .clockwise => .counterclockwise
  | .counterclockwise => .clockwise

@[simp] theorem Direction.reversed_reversed (d : Direction) : d.reversed.reversed = d := by
  cases d <;> rfl

/-- The seat one step on, at a table of `count` seats. Reference: `Direction.step`. -/
def Direction.step (d : Direction) (s : Seat) (count : Nat) : Seat :=
  let n := max count 1
  match d with
  | .clockwise => .ofNat ((s.index + 1) % n)
  | .counterclockwise => .ofNat ((s.index + n - 1) % n)

/-- A step stays at the table. -/
theorem Direction.step_lt (d : Direction) (s : Seat) {count : Nat} (h₀ : 0 < count)
    (h : count ≤ 256) : (d.step s count).index < count := by
  have hmax : max count 1 = count := by omega
  have hlt : ∀ k, k % count < count := fun k => Nat.mod_lt k h₀
  cases d
  · have := hlt (s.index + 1)
    simp only [step, hmax]
    rw [Seat.ofNat_index (by omega)]
    exact this
  · have := hlt (s.index + count - 1)
    simp only [step, hmax]
    rw [Seat.ofNat_index (by omega)]
    exact this

/-- The seats met from `s` on, `s` first, for `n` seats. -/
def Direction.walk (d : Direction) (count : Nat) : (n : Nat) → Seat → List Seat
  | 0, _ => []
  | n + 1, s => s :: d.walk count n (d.step s count)

end HouseRules
