import Mathlib.Data.List.Forall2
import HouseRules.Error

/-!
# Successful runs

How a successful run of a reader comes about: each lemma reads the success of a combinator as the
success of its parts. The readers of rule files and the checks of a call are built from these
combinators, so their inversion lemmas are proved by rewriting with the lemmas of this module.
-/

namespace HouseRules

variable {ε α β : Type}

/-- A sequence succeeds when both halves do. -/
theorem bind_ok {x : Except ε α} {f : α → Except ε β} {b : β} :
    x >>= f = .ok b ↔ ∃ a, x = .ok a ∧ f a = .ok b := by
  cases x <;> simp [bind, Except.bind]

/-- Giving something out gives out nothing else. -/
theorem pure_ok {a b : α} : (pure a : Except ε α) = .ok b ↔ a = b := by
  simp [pure, Except.pure]

/-- A check that throws lets pass exactly what it is not about. -/
theorem guard_ok {p : Prop} [Decidable p] {e : ε} {f : α → Except ε β} {x : Except ε β} {b : β} :
    (if p then throw e >>= f else x) = .ok b ↔ ¬ p ∧ x = .ok b := by
  split
  · exact ⟨nofun, fun h => absurd ‹p› h.1⟩
  · exact ⟨fun h => ⟨‹¬ p›, h⟩, And.right⟩

/-- What is made of a result comes of a result. -/
theorem map_ok {x : Except ε α} {f : α → β} {b : β} :
    x.map f = .ok b ↔ ∃ a, x = .ok a ∧ f a = b := by
  cases x <;> simp [Except.map]

/-- What is made of a result comes of a result, in the notation of functors. -/
theorem fmap_ok {x : Except ε α} {f : α → β} {b : β} :
    f <$> x = .ok b ↔ ∃ a, x = .ok a ∧ f a = b := map_ok

/-- Reading a list succeeds when reading each of its elements does. -/
theorem mapM_ok {f : α → Except ε β} {l : List α} {l' : List β} :
    l.mapM f = .ok l' ↔ List.Forall₂ (fun a b => f a = .ok b) l l' := by
  induction l generalizing l' with
  | nil => rw [List.mapM_nil, pure_ok, List.forall₂_nil_left_iff, eq_comm]
  | cons a l ih =>
    rw [List.mapM_cons, List.forall₂_cons_left_iff]
    simp only [bind_ok, pure_ok, ih]
    constructor
    · rintro ⟨b, hb, bs, hbs, rfl⟩
      exact ⟨b, bs, hb, hbs, rfl⟩
    · rintro ⟨b, bs, hb, hbs, rfl⟩
      exact ⟨b, hb, bs, hbs, rfl⟩

/-- Lists that agree element by element in some respect agree as lists. -/
theorem forall₂_eq_iff {γ : Type} {f : α → γ} {g : β → γ} {l : List α} {l' : List β} :
    List.Forall₂ (fun a b => f a = g b) l l' ↔ l.map f = l'.map g := by
  rw [← List.forall₂_eq_eq_eq, List.forall₂_map_left_iff, List.forall₂_map_right_iff]

/-- Where elements of one list stand for those of another, so they do in what they are related
to. -/
theorem forall₂_congr_left {γ : Type} {r : α → β → Prop} {s : α → γ → Prop} {t : β → γ → Prop}
    {l : List α} {m : List β} {n : List γ} (h : List.Forall₂ r l m)
    (hst : ∀ a b c, r a b → (s a c ↔ t b c)) : List.Forall₂ s l n ↔ List.Forall₂ t m n := by
  induction h generalizing n with
  | nil => rw [List.forall₂_nil_left_iff, List.forall₂_nil_left_iff]
  | cons hab _ ih => simp only [List.forall₂_cons_left_iff, hst _ _ _ hab, ih]

/-- Every element on the right is related to one on the left. -/
theorem exists_of_mem_forall₂ {r : α → β → Prop} {l : List α} {l' : List β}
    (h : List.Forall₂ r l l') {b : β} (hb : b ∈ l') : ∃ a ∈ l, r a b := by
  obtain ⟨i, hi, rfl⟩ := List.getElem_of_mem hb
  have hi' : i < l.length := by rw [h.length_eq]; exact hi
  exact ⟨l[i], List.getElem_mem hi', h.get hi' hi⟩

/-- Every result of reading a list is read from one of its elements. -/
theorem exists_of_mem_mapM {f : α → Except ε β} {l : List α} {l' : List β}
    (h : l.mapM f = .ok l') {b : β} (hb : b ∈ l') : ∃ a ∈ l, f a = .ok b :=
  exists_of_mem_forall₂ (mapM_ok.1 h) hb

/-- What a fold keeps at each step it keeps to the end. -/
theorem foldlM_keeps {f : β → α → Except ε β} (p : β → Prop)
    (hstep : ∀ b a b', p b → f b a = .ok b' → p b') :
    ∀ {l : List α} {b b' : β}, p b → l.foldlM f b = .ok b' → p b'
  | [], b, b', hb, h => by
    rw [List.foldlM_nil, pure_ok] at h
    exact h ▸ hb
  | a :: l, b, b', hb, h => by
    rw [List.foldlM_cons, bind_ok] at h
    obtain ⟨b₁, h₁, h₂⟩ := h
    exact foldlM_keeps p hstep (hstep b a b₁ hb h₁) h₂

/-- A fold that reads one more result at each step reads one for each element. -/
theorem foldlM_append_ok {f : List β → α → Except ε (List β)} (r : α → β → Prop)
    (hstep : ∀ bs a bs', f bs a = .ok bs' → ∃ b, bs' = bs ++ [b] ∧ r a b) :
    ∀ {l : List α} {bs bs' : List β}, l.foldlM f bs = .ok bs' →
      ∃ new, bs' = bs ++ new ∧ List.Forall₂ r l new
  | [], bs, bs', h => by
    rw [List.foldlM_nil, pure_ok] at h
    exact ⟨[], by rw [List.append_nil, h], .nil⟩
  | a :: l, bs, bs', h => by
    rw [List.foldlM_cons, bind_ok] at h
    obtain ⟨bs₁, h₁, h₂⟩ := h
    obtain ⟨b, rfl, hb⟩ := hstep bs a bs₁ h₁
    obtain ⟨new, rfl, hnew⟩ := foldlM_append_ok r hstep h₂
    exact ⟨b :: new, by rw [List.append_assoc, List.singleton_append], .cons hb hnew⟩

/-! ## Successes -/

/-- A run succeeds. -/
def Succeeds (x : Except ε α) : Prop := ∃ a, x = .ok a

namespace Succeeds

/-- Giving something out succeeds. -/
theorem pure {a : α} : Succeeds (Pure.pure a : Except ε α) := ⟨a, rfl⟩

/-- A sequence succeeds when its halves do. -/
theorem bind {x : Except ε α} {f : α → Except ε β} (hx : Succeeds x)
    (hf : ∀ a, Succeeds (f a)) : Succeeds (x >>= f) := by
  obtain ⟨a, rfl⟩ := hx
  exact hf a

/-- A run that is found to have succeeded succeeds. -/
theorem of_isOk {x : Except ε α} (h : x.isOk = true) : Succeeds x := by
  cases x with
  | ok a => exact ⟨a, rfl⟩
  | error e => cases h

end Succeeds

/-! ## Failures -/

/-- Every failure of a run is of a sort. -/
def FailsOnly (q : ε → Prop) (x : Except ε α) : Prop := ∀ e, x = .error e → q e

/-- A sequence fails when one of its halves does. -/
theorem bind_error {x : Except ε α} {f : α → Except ε β} {e : ε} :
    x >>= f = .error e ↔ x = .error e ∨ ∃ a, x = .ok a ∧ f a = .error e := by
  cases x <;> simp [bind, Except.bind]

/-- A fold fails at one of its steps. -/
theorem foldlM_error {f : β → α → Except ε β} {e : ε} :
    ∀ {l : List α} {b : β}, l.foldlM f b = .error e → ∃ b', ∃ a ∈ l, f b' a = .error e
  | [], _, h => by cases h
  | a :: l, b, h => by
    rw [List.foldlM_cons, bind_error] at h
    rcases h with h | ⟨b', -, h⟩
    · exact ⟨b, a, List.mem_cons_self, h⟩
    · obtain ⟨b'', a', ha', h⟩ := foldlM_error h
      exact ⟨b'', a', List.mem_cons_of_mem a ha', h⟩

/-- Asking for what may be missing fails exactly when it is missing, with the given error. -/
theorem orFail_eq_error {error e : ε} {x : Option α} :
    orFail error x = .error e ↔ x = none ∧ error = e := by
  cases x <;> simp

namespace FailsOnly

variable {q : ε → Prop}

/-- What fails in a narrower sort of ways fails in a wider one. -/
theorem mono {q' : ε → Prop} {x : Except ε α} (hx : FailsOnly q x) (h : ∀ e, q e → q' e) :
    FailsOnly q' x := fun e he => h e (hx e he)

/-- A success is no failure. -/
theorem ok {a : α} : FailsOnly q (.ok a : Except ε α) := nofun

/-- Giving something out is no failure. -/
theorem pure {a : α} : FailsOnly q (Pure.pure a : Except ε α) := nofun

/-- Throwing an error fails with this error. -/
theorem error {e : ε} (h : q e) : FailsOnly q (.error e : Except ε α) := by
  rintro _ ⟨⟩
  exact h

/-- A sequence fails as one of its halves does. -/
theorem bind {x : Except ε α} {f : α → Except ε β} (hx : FailsOnly q x)
    (hf : ∀ a, x = .ok a → FailsOnly q (f a)) : FailsOnly q (x >>= f) := by
  cases x with
  | ok a => exact hf a rfl
  | error e => exact error (hx e rfl)

/-- Making something of a result fails only as coming by the result does. -/
theorem map {x : Except ε α} {f : α → β} (hx : FailsOnly q x) : FailsOnly q (x.map f) := by
  cases x with
  | ok a => exact ok
  | error e => exact error (hx e rfl)

/-- Asking for what may be missing fails only with the given error. -/
theorem orFail {e : ε} {x : Option α} (h : q e) : FailsOnly q (HouseRules.orFail e x) := by
  cases x with
  | some a => exact ok
  | none => exact error h

end FailsOnly

end HouseRules
