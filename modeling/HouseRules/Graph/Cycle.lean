import HouseRules.Graph
import HouseRules.Graph.Trail

/-!
# Controlled actions that run themselves

A controlled action may run others, and none may come back to itself, or running it would never end.
`Graph.searchFrom` looks for such a cycle in depth, true branch first. It knows the controlled
actions that it has left for good and the trail of those it is inside of; meeting one of the trail
again is a cycle, and the error is the one that was met.

Reference: `check_controlled_cycles` of `ComponentCompiler`.
-/

namespace HouseRules.Graph

/-- Searches everything that a controlled action can run; gives the numbers left for good, or the
controlled action at which a cycle closes. Reference: `visit` of
`ComponentCompiler.check_controlled_cycles`. -/
def searchFrom (g : Graph) (trail left : List Nat) (id : ControlledId) :
    Except ControlledId (List Nat) :=
  if left.contains id.index then .ok left
  else
    match _h : trail.contains id.index, _hc : g.controlled[id.index]? with
    | true, _ => .error id
    | false, none => .ok (id.index :: left)
    | false, some c => do
      let left ← c.branches.foldlM (fun left branch =>
        match branch with
        | .controlled next => searchFrom g (trail ++ [id.index]) left next
        | .action _ => .ok left) left
      return id.index :: left
termination_by Trail.room g.controlled.length trail
decreasing_by
  have hlt : id.index < g.controlled.length := (List.getElem?_eq_some_iff.1 _hc).1
  exact Trail.room_append_lt hlt _h

/-- The first controlled action found to run itself, if there is one. Reference:
`ComponentCompiler.check_controlled_cycles`. -/
def findCycle? (g : Graph) : Option ControlledId :=
  let search := (List.range g.controlled.length).foldlM
    (fun left i => g.searchFrom [] left ⟨i⟩) []
  match search with
  | .error id => some id
  | .ok _ => none

end HouseRules.Graph
