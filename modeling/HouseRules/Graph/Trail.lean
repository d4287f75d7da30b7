/-!
# Trails

A trail is the list of numbers that a search has entered and not yet left. A search that never
enters a number twice ends, because entering a new number below `n` leaves less room: `Trail.room`
counts the numbers below `n` that are not on the trail.

Reference: none; the measure by which `visit` and `RecursionGuard` come to an end.
-/

namespace HouseRules.Trail

/-- How many numbers below `n` are not on the trail. -/
def room (n : Nat) (trail : List Nat) : Nat := (List.range n).countP fun i => !trail.contains i

/-- Entering a new number below `n` leaves less room. -/
theorem room_append_lt {n i : Nat} {trail : List Nat} (hi : i < n)
    (h : trail.contains i = false) : room n (trail ++ [i]) < room n trail := by
  unfold room
  have hle : ∀ l : List Nat,
      l.countP (fun j => !(trail ++ [i]).contains j) ≤ l.countP fun j => !trail.contains j := by
    intro l
    apply List.countP_mono_left
    simp +contextual
  have key : ∀ l : List Nat, i ∈ l →
      l.countP (fun j => !(trail ++ [i]).contains j) < l.countP fun j => !trail.contains j := by
    intro l hl
    obtain ⟨s, t, rfl⟩ := List.append_of_mem hl
    have hs := hle s
    have ht := hle t
    have hnot : i ∉ trail := by simpa using h
    simp only [List.countP_append, List.countP_cons]
    simp only [List.contains_append] at hs ht ⊢
    simp [hnot]
    simp at hs ht
    omega
  exact key _ (by simpa using hi)

/-- There is never more room than there are numbers. -/
theorem room_le (n : Nat) (trail : List Nat) : room n trail ≤ n := by
  unfold room
  exact Nat.le_trans List.countP_le_length (by simp)

end HouseRules.Trail
