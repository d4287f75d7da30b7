import Mathlib.Data.Nat.PSub
import HouseRules.Error

/-!
# Strict readings

A function that is total takes a place for granted by answering something where the place is not
there: nothing, the list as it was, zero. A strict reading of the function does not. Where it takes
an element by its place, it comes to `none` if the list is shorter; where it takes one length from
another, it comes to `none` if that one is the greater; where it relies on a condition, it comes to
`none` if that does not hold. An error, which the function reports, is a result like any other, so a
strict reading has both (`Strict`).

A strict reading that comes to what the function gives, whatever it is given, has shown that the
function never relies on what is not there. The lemmas of this module put such readings together.
-/

namespace HouseRules

/-- A result or an error, or `none` where a place was not there. -/
abbrev Strict (ε α : Type) := ExceptT ε Option α

namespace Strict

variable {ε α β : Type}

/-- Goes on only under a condition. -/
def rely (p : Prop) [Decidable p] : Strict ε Unit := if p then some (.ok ()) else none

/-- Takes the element at a place, which has to be there. -/
def entry (l : List α) (i : Nat) : Strict ε α := liftM l[i]?

/-- What only reports errors is strict. -/
theorem liftM_except (x : Except ε α) : (liftM x : Strict ε α) = some x := by
  cases x <;> rfl

/-- What is there is taken. -/
theorem take_bind {x : Option α} {a : α} (h : x = some a) (f : α → Strict ε β) :
    ((liftM x : Strict ε α) >>= f) = f a := by
  subst h
  rfl

/-- So is an element that is there. -/
theorem entry_eq {l : List α} {i : Nat} {a : α} (h : l[i]? = some a) :
    (entry l i : Strict ε α) = some (.ok a) := by
  rw [entry, h]
  rfl

/-- Taking an element that is there goes on with it. -/
theorem entry_bind {l : List α} {i : Nat} {a : α} (h : l[i]? = some a) (f : α → Strict ε β) :
    (entry l i >>= f) = f a := take_bind h f

/-- A condition that holds does not hold anything up. -/
theorem rely_bind {p : Prop} [Decidable p] (h : p) (f : Unit → Strict ε β) :
    (rely p >>= f) = f () := by
  rw [rely, if_pos h]
  rfl

/-- A sequence is read strictly when its halves are. -/
theorem bind_eq {x : Strict ε α} {x' : Except ε α} (hx : x = some x') {f : α → Strict ε β}
    {g : α → Except ε β} (hf : ∀ a, x' = .ok a → f a = some (g a)) :
    x >>= f = some (x' >>= g) := by
  subst hx
  cases x' with
  | ok a => exact hf a rfl
  | error e => rfl

/-- So is one that begins with what only reports errors. -/
theorem read_bind {x : Except ε α} {f : α → Strict ε β} {g : α → Except ε β}
    (hf : ∀ a, x = .ok a → f a = some (g a)) : ((liftM x : Strict ε α) >>= f) = some (x >>= g) :=
  bind_eq (liftM_except x) hf

/-- A choice is read strictly when its branches are. -/
theorem ite_eq {p : Prop} [Decidable p] {x y : Strict ε α} {x' y' : Except ε α}
    (hx : p → x = some x') (hy : ¬ p → y = some y') :
    (if p then x else y) = some (if p then x' else y') := by
  split
  · exact hx ‹p›
  · exact hy ‹¬ p›

/-- What goes on after a check is only read where the check lets it pass. -/
theorem guard_eq {p : Prop} [Decidable p] {e : ε} {f : α → Strict ε β} {g : α → Except ε β}
    {x : Strict ε β} {x' : Except ε β} (hx : ¬ p → x = some x') :
    (if p then throw e >>= f else x) = some (if p then throw e >>= g else x') :=
  ite_eq (fun _ => rfl) hx

/-- What is done for each element of a list is read strictly when it is so for each. -/
theorem mapM_eq {l : List α} {f : α → Strict ε β} {g : α → Except ε β}
    (h : ∀ a ∈ l, f a = some (g a)) : l.mapM f = some (l.mapM g) := by
  induction l with
  | nil => rfl
  | cons a l ih =>
    rw [List.mapM_cons, List.mapM_cons]
    refine bind_eq (h a List.mem_cons_self) fun b _ => ?_
    exact bind_eq (ih fun a ha => h a (List.mem_cons_of_mem _ ha)) fun bs _ => rfl

/-- So is what is gathered going through a list. -/
theorem foldlM_eq {l : List α} {f : β → α → Strict ε β} {g : β → α → Except ε β}
    (h : ∀ b, ∀ a ∈ l, f b a = some (g b a)) (b : β) : l.foldlM f b = some (l.foldlM g b) := by
  induction l generalizing b with
  | nil => rfl
  | cons a l ih =>
    rw [List.foldlM_cons, List.foldlM_cons]
    exact bind_eq (h b a List.mem_cons_self) fun b _ =>
      ih (fun b a ha => h b a (List.mem_cons_of_mem _ ha)) b

end Strict

/-! ## Lists -/

section

variable {α : Type} {l : List α} {start stop : Nat}

/-- What a list holds from one place to before another; nothing if these are not places of the list
in this order. -/
def slice? (l : List α) (start stop : Nat) : Option (List α) :=
  if start ≤ stop ∧ stop ≤ l.length then some ((l.take stop).drop start) else none

/-- A part of a list is there when its ends are places of the list in this order. -/
theorem slice?_eq (hstart : start ≤ stop) (hstop : stop ≤ l.length) :
    slice? l start stop = some ((l.take stop).drop start) := if_pos ⟨hstart, hstop⟩

/-- A part up to a place of the list is there. -/
theorem slice?_zero (hstop : stop ≤ l.length) : slice? l 0 stop = some (l.take stop) :=
  slice?_eq (Nat.zero_le _) hstop

/-- So is the part from a place on. -/
theorem slice?_length (hstart : start ≤ l.length) :
    slice? l start l.length = some (l.drop start) := by
  rw [slice?_eq hstart le_rfl, List.take_length]

/-- Takes the element at a place out of a list. -/
def takeOut? (l : List α) (i : Nat) : Option (α × List α) := l[i]?.map fun a => (a, l.eraseIdx i)

@[simp] theorem takeOut?_cons (a : α) (l : List α) : takeOut? (a :: l) 0 = some (a, l) := rfl

end

/-- What is done for each element of a list, where it never fails. -/
theorem mapM_eq_some {α β : Type} {l : List α} {f : α → Option β} {g : α → β}
    (h : ∀ a ∈ l, f a = some (g a)) : l.mapM f = some (l.map g) := by
  induction l with
  | nil => rfl
  | cons a l ih =>
    rw [List.mapM_cons, h a List.mem_cons_self, ih fun a ha => h a (List.mem_cons_of_mem _ ha)]
    rfl

/-- Going through a list with what never fails is a fold. -/
theorem foldlM_eq_some {α β : Type} {l : List α} {f : β → α → Option β} {g : β → α → β}
    (p : β → Prop) (hstep : ∀ b, p b → ∀ a ∈ l, f b a = some (g b a) ∧ p (g b a)) {b : β}
    (hb : p b) : l.foldlM f b = some (l.foldl g b) := by
  induction l generalizing b with
  | nil => rfl
  | cons a l ih =>
    obtain ⟨heq, hnext⟩ := hstep b hb a List.mem_cons_self
    rw [List.foldlM_cons, heq, List.foldl_cons]
    exact ih (fun b hb a ha => hstep b hb a (List.mem_cons_of_mem _ ha)) hnext

end HouseRules
