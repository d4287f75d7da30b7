import HouseRules.Graph
import HouseRules.Graph.Trail

/-!
# The guard against circular conditions

The guard holds the conditions that are being evaluated, the outermost first. Entering one that is
already there is an error, which tells the way round; leaving takes off the innermost. Since no
condition is entered twice, evaluation ends: entering leaves less room for more (`Guard.room_lt`).

Reference: `RecursionGuard` (specification 4.5, E4).
-/

namespace HouseRules

/-- The conditions being evaluated, the outermost first. Reference: `RecursionGuard`. -/
structure Guard where
  stack : List ConditionId
  deriving Repr, DecidableEq, Inhabited

namespace Guard

/-- No condition is being evaluated. -/
def empty : Guard := ⟨[]⟩

/-- How many conditions are being evaluated. -/
def depth (g : Guard) : Nat := g.stack.length

/-- Whether none is. -/
def isEmpty (g : Guard) : Bool := g.stack.isEmpty

/-- The name of a condition, or its number if it has none. -/
def label (graph : Graph) (id : ConditionId) : String :=
  match graph.conditions[id.index]? with
  | some c => c.name
  | none => id.describe

/-- The names on the way from a condition being evaluated back to itself. -/
def chain (graph : Graph) (g : Guard) (id : ConditionId) : List String :=
  ((g.stack.dropWhile (· != id)) ++ [id]).map (label graph)

/-- Begins a condition, which must not be under way. Reference: `RecursionGuard.enter`. -/
def enter (graph : Graph) (g : Guard) (id : ConditionId) : Except RuntimeError Guard :=
  if g.stack.contains id then .error (.circularCondition (label graph id) (chain graph g id))
  else .ok ⟨g.stack ++ [id]⟩

/-- Ends the innermost condition. Reference: `RecursionGuard.exit`. -/
def exit (g : Guard) : Guard := ⟨g.stack.dropLast⟩

/-- Beginning a condition puts it on top. -/
theorem stack_of_enter {graph : Graph} {g inner : Guard} {id : ConditionId}
    (h : g.enter graph id = .ok inner) : id ∉ g.stack ∧ inner.stack = g.stack ++ [id] := by
  unfold enter at h
  split at h
  · cases h
  · cases h
    simp_all

/-- Ending a condition that was begun leaves the guard as it was. -/
theorem exit_of_enter {graph : Graph} {g inner : Guard} {id : ConditionId}
    (h : g.enter graph id = .ok inner) : inner.exit = g := by
  simp [exit, (stack_of_enter h).2]

/-- How many conditions of a graph are not being evaluated. -/
def room (graph : Graph) (g : Guard) : Nat :=
  Trail.room graph.conditions.length (g.stack.map (·.index))

/-- Beginning a condition of the graph leaves less room. -/
theorem room_lt {graph : Graph} {g inner : Guard} {id : ConditionId} {c : Condition}
    (h : g.enter graph id = .ok inner) (hc : graph.conditions[id.index]? = some c) :
    inner.room graph < g.room graph := by
  obtain ⟨hnew, hstack⟩ := stack_of_enter h
  have hlt : id.index < graph.conditions.length := (List.getElem?_eq_some_iff.1 hc).1
  have hfresh : (g.stack.map (·.index)).contains id.index = false := by
    cases hb : (g.stack.map (·.index)).contains id.index
    · rfl
    · exfalso
      obtain ⟨other, hmem, heq⟩ := List.mem_map.1 (List.contains_iff_mem.1 hb)
      cases other
      cases id
      simp_all
  have := Trail.room_append_lt hlt hfresh
  simpa [room, hstack] using this

end Guard

end HouseRules
