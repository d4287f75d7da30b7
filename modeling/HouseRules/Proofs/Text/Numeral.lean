import HouseRules.Proofs.Text.Quoted
import HouseRules.Text.Numeral
import Mathlib.Data.Int.Basic

/-!
# Decimal numerals

The decimal numeral of an integer of at most 64 bits is read back as that integer
(`Text.integer?_repr`). No text that starts with a letter is a numeral
(`Text.integer?_eq_none`).
-/

namespace HouseRules.Text

variable {cs : List Char} {n : Nat}

/-- A run of digits is read as the number that it stands for in base ten. -/
theorem digitsFrom_eq (h : ∀ c ∈ cs, c.isDigit = true) (acc : Nat) :
    digitsFrom acc cs = some (Nat.ofDigitChars 10 cs acc) := by
  induction cs generalizing acc with
  | nil => rfl
  | cons c cs ih =>
    obtain ⟨hc, hcs⟩ := List.forall_mem_cons.1 h
    rw [digitsFrom, if_pos hc, ih hcs, Nat.ofDigitChars_cons, Nat.mul_comm 10]

/-- Digits are read from the front, beginning with nought. -/
theorem digits?_eq (hne : cs ≠ []) : digits? cs = digitsFrom 0 cs := by
  cases cs with
  | nil => exact absurd rfl hne
  | cons c cs => rfl

/-- The digits of a number are read back as the number. -/
theorem digits?_toDigits (n : Nat) : digits? (Nat.toDigits 10 n) = some n := by
  rw [digits?_eq Nat.toDigits_ne_nil,
    digitsFrom_eq fun c hc => Nat.isDigit_of_mem_toDigits (by decide) (by decide) hc,
    Nat.ofDigitChars_ten_toDigits]

/-- A number starts with a digit. -/
theorem exists_toDigits (n : Nat) :
    ∃ c rest, Nat.toDigits 10 n = c :: rest ∧ c ≠ '+' ∧ c ≠ '-' ∧ c ≠ '"' := by
  obtain ⟨c, rest, hcons⟩ := List.exists_cons_of_ne_nil (Nat.toDigits_ne_nil (n := n) (b := 10))
  have hdigit : c.isDigit = true :=
    Nat.isDigit_of_mem_toDigits (by decide) (by decide) (hcons ▸ List.mem_cons_self)
  refine ⟨c, rest, hcons, ?_, ?_, ?_⟩ <;>
  · rintro rfl
    cases hdigit

/-- The numeral of an integer. -/
theorem toList_repr (n : Int) :
    n.repr.toList =
      if 0 ≤ n then Nat.toDigits 10 n.toNat else '-' :: Nat.toDigits 10 (-n).toNat := by
  rw [Int.repr_eq_if]
  split
  · exact Nat.toList_repr
  · rw [String.toList_append, Nat.toList_repr]
    rfl

/-- The numeral of an integer is read back as the integer. -/
theorem integer?_repr {n : Int} (hmin : Int64.minValue.toInt ≤ n)
    (hmax : n ≤ Int64.maxValue.toInt) : integer? n.repr = some n := by
  have hfilter : ∀ value : Option Int, value = some n → value.filter (fun n =>
      decide (Int64.minValue.toInt ≤ n) && decide (n ≤ Int64.maxValue.toInt)) = some n := by
    rintro _ rfl
    exact Option.filter_some_pos (Bool.and_eq_true_iff.2 ⟨decide_eq_true hmin, decide_eq_true hmax⟩)
  refine hfilter _ ?_
  rw [toList_repr]
  by_cases hsign : 0 ≤ n
  · rw [if_pos hsign]
    have hvalue : (digits? (Nat.toDigits 10 n.toNat)).map Int.ofNat = some n := by
      rw [digits?_toDigits, Option.map_some]
      exact congrArg some (Int.toNat_of_nonneg hsign)
    obtain ⟨c, rest, hcons, hplus, hminus, -⟩ := exists_toDigits n.toNat
    rw [hcons] at hvalue ⊢
    split
    next heq => exact absurd (List.cons.inj heq).1 hplus
    next heq => exact absurd (List.cons.inj heq).1 hminus
    next => exact hvalue
  · rw [if_neg hsign]
    show (digits? (Nat.toDigits 10 (-n).toNat)).map (fun n => -Int.ofNat n) = some n
    rw [digits?_toDigits, Option.map_some, Option.some_inj]
    have hnat : ((-n).toNat : Int) = -n := Int.toNat_of_nonneg (by omega)
    show -((-n).toNat : Int) = n
    omega

/-- A text that starts with a letter is no numeral. -/
theorem integer?_eq_none {s : String} {c : Char} (hhead : s.toList.head? = some c)
    (hc : c.isDigit = false) (hplus : c ≠ '+') (hminus : c ≠ '-') : integer? s = none := by
  obtain ⟨rest, hcons⟩ : ∃ rest, s.toList = c :: rest := by
    cases hs : s.toList with
    | nil => rw [hs] at hhead; cases hhead
    | cons d rest => rw [hs] at hhead; cases hhead; exact ⟨rest, rfl⟩
  have hread : digits? (c :: rest) = none := by
    show (if c.isDigit then _ else none) = none
    rw [hc]
    rfl
  unfold integer?
  rw [hcons]
  split
  next heq => exact absurd (List.cons.inj heq).1 hplus
  next heq => exact absurd (List.cons.inj heq).1 hminus
  next => rw [hread]; rfl

/-- A digit is no white space. -/
theorem isBlank_of_isDigit {c : Char} (h : c.isDigit = true) : isBlank c = false := by
  simp only [Char.isDigit, Bool.and_eq_true, decide_eq_true_eq, ge_iff_le,
    UInt32.le_iff_toNat_le] at h
  obtain ⟨hzero, hnine⟩ := h
  have hlow : 48 ≤ c.toNat := hzero
  have hhigh : c.toNat ≤ 57 := hnine
  simp only [isBlank, Bool.or_eq_false_iff, Bool.and_eq_false_iff, decide_eq_false_iff_not,
    beq_eq_false_iff_ne]
  omega

/-- The numeral of a number of 32 bits is read back as that number. -/
theorem shortCount?_repr (h : n < UInt32.size) : shortCount? n.repr = some n := by
  obtain ⟨c, rest, hcons, hplus, -, -⟩ := exists_toDigits n
  have hdigits : digits? n.repr.toList = some n := by rw [Nat.toList_repr, digits?_toDigits]
  have hlist : n.repr.toList = c :: rest := by rw [Nat.toList_repr, hcons]
  rw [hlist] at hdigits
  rw [shortCount?, natBelow?, hlist]
  split
  next heq => exact absurd (List.cons.inj heq).1 hplus
  next =>
    rw [hdigits]
    exact Option.filter_some_pos (decide_eq_true h)

/-- A numeral is a word of digits. -/
theorem isDigit_of_mem_repr {c : Char} (h : c ∈ n.repr.toList) : c.isDigit = true := by
  rw [Nat.toList_repr] at h
  exact Nat.isDigit_of_mem_toDigits (by decide) (by decide) h

/-- The numeral of a number is a word. -/
theorem isWord_repr (n : Nat) : IsWord n.repr := by
  refine ⟨fun hempty => ?_, fun c hc => isBlank_of_isDigit (isDigit_of_mem_repr hc)⟩
  have hlist := congrArg String.toList hempty
  rw [Nat.toList_repr] at hlist
  exact Nat.toDigits_ne_nil hlist

/-- A numeral is without white space and quotes. -/
theorem isPlain_repr (n : Int) : IsPlain n.repr := by
  have hdigits : ∀ k : Nat, ∀ c ∈ Nat.toDigits 10 k, isBlank c = false ∧ c ≠ '"' := by
    intro k c hc
    have hdigit : c.isDigit = true := Nat.isDigit_of_mem_toDigits (by decide) (by decide) hc
    refine ⟨isBlank_of_isDigit hdigit, ?_⟩
    rintro rfl
    cases hdigit
  intro c hc
  rw [toList_repr] at hc
  split at hc
  · exact hdigits _ c hc
  · rcases List.mem_cons.1 hc with rfl | hc
    · decide
    · exact hdigits _ c hc

end HouseRules.Text
