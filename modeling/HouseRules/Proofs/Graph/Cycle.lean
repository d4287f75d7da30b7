import Mathlib.Logic.Relation
import HouseRules.Graph.Reader
import HouseRules.Proofs.Except

/-!
# The search for controlled actions that run themselves

The search of `Graph.findCycle?` is exact. It finds no cycle that is not there: the trail leads to
wherever the search is, so coming back to the trail closes a real way round (`searchFrom_error`). It
misses none: what the search has left for good is closed under running and holds nothing that runs
itself (`Graph.Cleared`), which a second way to the same controlled action does not disturb. For
this half the trail is not needed: the last controlled action on a way round to be left would lead
to one that is left already, and so would be left itself.
-/

namespace HouseRules

open Relation (ReflTransGen TransGen)

namespace Graph

variable {g : Graph}

/-- Some controlled action comes back to itself. -/
def Cyclic (g : Graph) : Prop := ∃ id, TransGen g.Runs id id

/-- What runs another is a controlled action of the graph. -/
theorem Runs.lt {a b : ControlledId} (h : g.Runs a b) : a.index < g.controlled.length := by
  obtain ⟨c, hc, -⟩ := h
  exact (List.getElem?_eq_some_iff.1 hc).1

/-- What leads somewhere is a controlled action of the graph. -/
theorem transGen_lt {a b : ControlledId} (h : TransGen g.Runs a b) :
    a.index < g.controlled.length := by
  obtain ⟨_, hstep, -⟩ := TransGen.head'_iff.1 h
  exact hstep.lt

/-- Every controlled action of a trail leads to the one that is entered next. -/
def LeadsTo (g : Graph) (trail : List Nat) (id : ControlledId) : Prop :=
  ∀ i ∈ trail, TransGen g.Runs ⟨i⟩ id

/-- The empty trail leads anywhere. -/
theorem LeadsTo.nil (id : ControlledId) : g.LeadsTo [] id := nofun

/-- A trail goes on to what its last controlled action runs. -/
theorem LeadsTo.append {trail : List Nat} {id next : ControlledId} (h : g.LeadsTo trail id)
    (hnext : g.Runs id next) : g.LeadsTo (trail ++ [id.index]) next := by
  intro i hi
  rcases List.mem_append.1 hi with hi | hi
  · exact (h i hi).tail hnext
  · cases List.mem_singleton.1 hi
    exact .single hnext

/-- Where nothing runs itself, a trail leads to something new. -/
theorem LeadsTo.contains {trail : List Nat} {id : ControlledId} (h : g.LeadsTo trail id)
    (hg : ¬ g.Cyclic) : trail.contains id.index = false := by
  cases hmem : trail.contains id.index with
  | false => rfl
  | true => exact absurd ⟨id, h _ (List.contains_iff_mem.1 hmem)⟩ hg

/-- Entering a controlled action that is not on the trail leaves less room. -/
theorem room_append_lt {trail : List Nat} {id : ControlledId} {c : ControlledAction}
    (hc : g.controlled[id.index]? = some c) (hnew : ¬ trail.contains id.index = true) :
    Trail.room g.controlled.length (trail ++ [id.index]) < Trail.room g.controlled.length trail :=
  Trail.room_append_lt (List.getElem?_eq_some_iff.1 hc).1 (Bool.eq_false_iff.2 hnew)

/-! ## One step of the search -/

/-- Searches what a branch can run. -/
def searchBranch (g : Graph) (trail left : List Nat) : Performable → Except ControlledId (List Nat)
  | .controlled next => g.searchFrom trail left next
  | .action _ => .ok left

/-- What the search does at a controlled action: nothing if it has left it, an error if it is inside
of it, and its branches one after the other otherwise. -/
theorem searchFrom_eq (g : Graph) (trail left : List Nat) (id : ControlledId) :
    g.searchFrom trail left id =
      if left.contains id.index then .ok left
      else if trail.contains id.index then .error id
      else match g.controlled[id.index]? with
        | none => .ok (id.index :: left)
        | some c => do
          let left ← c.branches.foldlM (g.searchBranch (trail ++ [id.index])) left
          return id.index :: left := by
  rw [searchFrom]
  split
  · rfl
  · split
    next _ hmem => rw [hmem, if_pos rfl]
    next hmem hc => rw [hmem, if_neg Bool.false_ne_true, hc]
    next c hmem hc =>
      rw [hmem, if_neg Bool.false_ne_true, hc]
      rfl

/-! ## No false alarm -/

/-- Where the search says that a cycle closes, one does. -/
theorem searchFrom_error {trail left : List Nat} {id found : ControlledId}
    (htrail : g.LeadsTo trail id) (h : g.searchFrom trail left id = .error found) :
    TransGen g.Runs found found := by
  induction hn : Trail.room g.controlled.length trail using Nat.strongRecOn
    generalizing trail left id with
  | ind n ih =>
  subst hn
  rw [searchFrom_eq] at h
  split at h
  · cases h
  · split at h
    next hmem =>
      cases h
      exact htrail _ (List.contains_iff_mem.1 hmem)
    next hnew =>
      split at h
      · cases h
      next c hc =>
        rw [bind_error] at h
        obtain h | ⟨_, -, h⟩ := h
        · obtain ⟨left', branch, hbranch, h⟩ := foldlM_error h
          cases branch with
          | action => cases h
          | controlled next =>
            exact ih _ (room_append_lt hc hnew) (htrail.append ⟨c, hc, hbranch⟩) h rfl
        · cases h

/-! ## No cycle missed -/

/-- What has been left for good: everything that it runs has been left too, and nothing of it runs
itself. -/
structure Cleared (g : Graph) (left : List Nat) : Prop where
  runs : ∀ i ∈ left, ∀ b, g.Runs ⟨i⟩ b → b.index ∈ left
  acyclic : ∀ i ∈ left, ¬ TransGen g.Runs ⟨i⟩ ⟨i⟩

namespace Cleared

/-- At the beginning nothing has been left. -/
theorem nil (g : Graph) : g.Cleared [] := ⟨nofun, nofun⟩

variable {left : List Nat}

/-- Everything that can be reached from what has been left has been left. -/
theorem reaches (h : g.Cleared left) {a b : ControlledId} (ha : a.index ∈ left)
    (hab : ReflTransGen g.Runs a b) : b.index ∈ left := by
  induction hab with
  | refl => exact ha
  | tail _ hstep ih => exact h.runs _ ih _ hstep

/-- A controlled action all of whose branches have been left may be left. -/
theorem cons (h : g.Cleared left) {id : ControlledId}
    (hid : ∀ b, g.Runs id b → b.index ∈ left) : g.Cleared (id.index :: left) := by
  constructor
  · intro i hi b hb
    rcases List.mem_cons.1 hi with rfl | hi
    · exact List.mem_cons_of_mem _ (hid b hb)
    · exact List.mem_cons_of_mem _ (h.runs i hi b hb)
  · intro i hi hround
    rcases List.mem_cons.1 hi with rfl | hi
    · -- The way round goes on from something that has been left, so all of it has been left.
      obtain ⟨b, hstep, hback⟩ := TransGen.head'_iff.1 hround
      exact h.acyclic _ (h.reaches (hid b hstep) hback) hround
    · exact h.acyclic i hi hround

end Cleared

/-- What a search gives when it ends well: more has been left, all of it cleared, and among it what
the search was for. -/
structure Clears (g : Graph) (left : List Nat) (goals : List Nat) (left' : List Nat) : Prop where
  cleared : g.Cleared left'
  keeps : left ⊆ left'
  reaches : ∀ i ∈ goals, i ∈ left'

/-- Searches one after the other clear the goals of all of them. -/
theorem foldlM_clears {α : Type} {goals : α → List Nat}
    {f : List Nat → α → Except ControlledId (List Nat)} {l : List α}
    (hf : ∀ a ∈ l, ∀ left left', g.Cleared left → f left a = .ok left' →
      g.Clears left (goals a) left') :
    ∀ {left left' : List Nat}, g.Cleared left → l.foldlM f left = .ok left' →
      g.Clears left (l.flatMap goals) left' := by
  induction l with
  | nil =>
    intro left left' hleft h
    rw [List.foldlM_nil, pure_ok] at h
    subst h
    exact ⟨hleft, List.Subset.refl _, nofun⟩
  | cons a l ih =>
    intro left left' hleft h
    rw [List.foldlM_cons, bind_ok] at h
    obtain ⟨left₁, h₁, h₂⟩ := h
    have hhead := hf a List.mem_cons_self left left₁ hleft h₁
    have htail := ih (fun b hb => hf b (List.mem_cons_of_mem a hb)) hhead.cleared h₂
    refine ⟨htail.cleared, List.Subset.trans hhead.keeps htail.keeps, ?_⟩
    rw [List.flatMap_cons]
    exact List.forall_mem_append.2 ⟨fun i hi => htail.keeps (hhead.reaches i hi), htail.reaches⟩

/-- What a branch leads to next. -/
def nextOf : Performable → List Nat
  | .controlled next => [next.index]
  | .action _ => []

/-- A search that ends well has left everything that it came to, and missed no cycle there. -/
theorem searchFrom_ok {trail left left' : List Nat} {id : ControlledId} (hleft : g.Cleared left)
    (h : g.searchFrom trail left id = .ok left') : g.Clears left [id.index] left' := by
  induction hn : Trail.room g.controlled.length trail using Nat.strongRecOn
    generalizing trail left left' id with
  | ind n ih =>
  subst hn
  rw [searchFrom_eq] at h
  split at h
  next hmem =>
    cases h
    exact ⟨hleft, List.Subset.refl _, List.forall_mem_singleton.2 (List.contains_iff_mem.1 hmem)⟩
  next =>
    split at h
    · cases h
    next hnew =>
      split at h
      next hnone =>
        cases h
        refine ⟨hleft.cons fun b hb => ?_, List.subset_cons_self _ _,
          List.forall_mem_singleton.2 List.mem_cons_self⟩
        obtain ⟨c, hc, -⟩ := hb
        cases hnone.symm.trans hc
      next c hc =>
        rw [bind_ok] at h
        obtain ⟨left₁, hbranches, h⟩ := h
        cases h
        have hbranch : ∀ branch ∈ c.branches, ∀ left left', g.Cleared left →
            g.searchBranch (trail ++ [id.index]) left branch = .ok left' →
            g.Clears left (nextOf branch) left' := by
          intro branch _ left left' hleft h
          cases branch with
          | controlled next => exact ih _ (room_append_lt hc hnew) hleft h rfl
          | action =>
            cases h
            exact ⟨hleft, List.Subset.refl _, nofun⟩
        have hclears := foldlM_clears hbranch hleft hbranches
        refine ⟨hclears.cleared.cons fun b hb => ?_,
          List.Subset.trans hclears.keeps (List.subset_cons_self _ _),
          List.forall_mem_singleton.2 List.mem_cons_self⟩
        obtain ⟨c', hc', hmem⟩ := hb
        cases hc.symm.trans hc'
        exact hclears.reaches _ (List.mem_flatMap.2 ⟨_, hmem, List.mem_singleton_self _⟩)

/-! ## Exactly the cycles -/

/-- What the search finds runs itself. -/
theorem transGen_of_findCycle? {id : ControlledId} (h : g.findCycle? = some id) :
    TransGen g.Runs id id := by
  unfold findCycle? at h
  dsimp only at h
  split at h
  next found herror =>
    cases h
    obtain ⟨left, i, -, hi⟩ := foldlM_error herror
    exact searchFrom_error (.nil _) hi
  next => cases h

/-- Where the search finds nothing, nothing runs itself. -/
theorem not_cyclic_of_findCycle? (h : g.findCycle? = none) : ¬ g.Cyclic := by
  unfold findCycle? at h
  dsimp only at h
  split at h
  · cases h
  next left hok =>
    have hsearch : ∀ i ∈ List.range g.controlled.length, ∀ left left', g.Cleared left →
        g.searchFrom [] left ⟨i⟩ = .ok left' → g.Clears left [i] left' := fun _ _ _ _ hleft h =>
      searchFrom_ok hleft h
    have hclears := foldlM_clears hsearch (.nil g) hok
    rintro ⟨id, hround⟩
    have hmem : id.index ∈ left := hclears.reaches _
      (List.mem_flatMap.2 ⟨_, List.mem_range.2 (transGen_lt hround), List.mem_singleton_self _⟩)
    exact hclears.cleared.acyclic _ hmem hround

/-- The search finds nothing exactly where nothing runs itself. -/
theorem findCycle?_eq_none_iff : g.findCycle? = none ↔ ¬ g.Cyclic := by
  refine ⟨not_cyclic_of_findCycle?, fun h => ?_⟩
  cases hfound : g.findCycle? with
  | none => rfl
  | some id => exact absurd ⟨id, transGen_of_findCycle? hfound⟩ h

/-! ## Compiling -/

/-- Reads the components of a rules document and leaves cycles among them alone. -/
def assemble (doc : Document) (layout : Layout) : Compiled Graph := do
  let aliases ← Alias.readAll doc
  let records ← Records.ofDocument doc
  let scope ← readScope doc layout aliases records
  read scope doc records

variable {doc : Document} {l : Layout}

/-- Compiling is reading the components and searching them for a cycle. -/
theorem compile_eq (doc : Document) (l : Layout) :
    compile doc l = assemble doc l >>= fun g =>
      match g.findCycle? with
      | some id => throw (.invalidComponent "controlled-action" (g.controlledLabel id)
          "runs itself through its branches")
      | none => return g := by
  rw [compile, assemble, bind_assoc]
  refine bind_congr fun aliases => ?_
  rw [bind_assoc]
  refine bind_congr fun records => ?_
  exact (bind_assoc ..).symm

/-- A document whose components can be read compiles, unless one of its controlled actions runs
itself. -/
theorem compile_of_not_cyclic (h : assemble doc l = .ok g) (hg : ¬ g.Cyclic) :
    compile doc l = .ok g := by
  rw [compile_eq, bind_ok]
  exact ⟨g, h, by rw [findCycle?_eq_none_iff.2 hg]; rfl⟩

/-- If one does, the error is about one that does. -/
theorem compile_of_cyclic (h : assemble doc l = .ok g) (hg : g.Cyclic) :
    ∃ id, TransGen g.Runs id id ∧
      compile doc l = .error (.invalidComponent "controlled-action" (g.controlledLabel id)
        "runs itself through its branches") := by
  cases hfound : g.findCycle? with
  | none => exact absurd hg (not_cyclic_of_findCycle? hfound)
  | some id =>
    refine ⟨id, transGen_of_findCycle? hfound, ?_⟩
    rw [compile_eq, bind_error]
    exact .inr ⟨g, h, by rw [hfound]; rfl⟩

/-- In a compiled graph nothing runs itself. -/
theorem not_cyclic_of_compile (h : compile doc l = .ok g) : ¬ g.Cyclic := by
  rw [compile_eq, bind_ok] at h
  obtain ⟨g', -, h⟩ := h
  split at h
  · cases h
  next hnone =>
    cases h
    exact not_cyclic_of_findCycle? hnone

end Graph

end HouseRules
