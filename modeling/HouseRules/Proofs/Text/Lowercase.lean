import Mathlib
import HouseRules.Text.Blank
import HouseRules.Text.Lowercase

/-!
# What lowering the case of a text keeps

White space is neither cased nor skipped when the neighbours of a sigma are looked at, so a text is
lowered word by word (`Text.lowerFrom_append_blank`), and no white space comes in
(`Text.isBlank_lowerFrom`). All that is said of the tables of letters is that none of their lower
letters is white space or an ASCII capital (`Text.LowerRange.Tame`), which is checked run by run.

Names are kept in the lower case of ASCII (`Text.asciiLower`), which leaves all other letters. It is
the lower case of a text exactly where these have no other (`Text.lowercase_eq_asciiLower_iff`).
-/

namespace HouseRules.Text

/-! ## Lower case in ASCII -/

/-- Lowering a letter of ASCII adds 32 to the number of a capital, and nothing to any other. -/
theorem toNat_toLower (c : Char) :
    c.toLower.toNat = if 0x41 ≤ c.toNat ∧ c.toNat ≤ 0x5A then c.toNat + 0x20 else c.toNat := by
  have hcapital : c.val ≥ 'A'.val ∧ c.val ≤ 'Z'.val ↔ 0x41 ≤ c.toNat ∧ c.toNat ≤ 0x5A := by
    simp only [ge_iff_le, UInt32.le_iff_toNat_le]
    rfl
  unfold Char.toLower
  split
  next h =>
    have hlt := (hcapital.1 h).2
    have hval : c.val.toNat = c.toNat := rfl
    have hshift : ('a'.val - 'A'.val).toNat = 0x20 := rfl
    rw [if_pos (hcapital.1 h), Char.toNat, UInt32.toNat_add, hval, hshift]
    exact Nat.mod_eq_of_lt (by omega)
  next h => rw [if_neg fun h' => h (hcapital.2 h')]

/-- All but the capitals stay as they are. -/
theorem toLower_of_le {c : Char} (h : 0x5B ≤ c.toNat) : c.toLower = c :=
  Char.toNat_inj.1 (by rw [toNat_toLower, if_neg (by omega)])

/-! ## White space -/

/-- The code points of white space. -/
def blanks : List Nat :=
  [0x09, 0x0A, 0x0B, 0x0C, 0x0D, 0x20, 0x85, 0xA0, 0x1680, 0x2000, 0x2001, 0x2002, 0x2003, 0x2004,
    0x2005, 0x2006, 0x2007, 0x2008, 0x2009, 0x200A, 0x2028, 0x2029, 0x202F, 0x205F, 0x3000]

/-- White space is what is listed. -/
theorem isBlank_iff {c : Char} : isBlank c = true ↔ c.toNat ∈ blanks := by
  simp only [isBlank, blanks, Bool.or_eq_true, Bool.and_eq_true, decide_eq_true_eq, beq_iff_eq,
    List.mem_cons, List.not_mem_nil, or_false]
  omega

variable {c : Char}

/-- White space is not ignored where case is concerned. -/
theorem isCaseIgnorable_of_isBlank (h : isBlank c = true) : isCaseIgnorable c = false := by
  have hall : ∀ n ∈ blanks, inRanges ignorableRanges n = false := by decide +kernel
  exact hall _ (isBlank_iff.1 h)

/-- White space has no case. -/
theorem isCased_of_isBlank (h : isBlank c = true) : isCased c = false := by
  have hall : ∀ n ∈ blanks, inRanges casedRanges n = false := by decide +kernel
  exact hall _ (isBlank_iff.1 h)

/-- White space ends a word, so nothing cased stands before what follows. -/
theorem casedAfter_of_isBlank (h : isBlank c = true) (before : Bool) :
    casedAfter before c = false := by
  rw [casedAfter, isCaseIgnorable_of_isBlank h, if_neg Bool.false_ne_true, isCased_of_isBlank h]

/-- White space has no lower case. -/
theorem lowerChar_of_isBlank (h : isBlank c = true) : lowerChar c = c := by
  have hall : ∀ n ∈ blanks, (0x80 ≤ n → lowerRanges.find? (·.covers n) = none) ∧
      ¬ (0x41 ≤ n ∧ n ≤ 0x5A) := by
    decide +kernel
  obtain ⟨hnone, hnot⟩ := hall _ (isBlank_iff.1 h)
  unfold lowerChar
  split
  · exact Char.toNat_inj.1 (by rw [toNat_toLower, if_neg hnot])
  next hge => rw [hnone (Nat.le_of_not_lt hge)]

/-! ## Letters -/

/-- The lower letters of a run are characters, and neither white space nor ASCII capitals. -/
def LowerRange.Tame (r : LowerRange) : Prop :=
  0x5B ≤ r.first + r.shift ∧ (r.last + r.shift < 0xD800 ∨ 0xDFFF < r.first + r.shift) ∧
    r.last + r.shift < 0x110000 ∧
    ∀ n ∈ blanks, n < r.first + r.shift ∨ r.last + r.shift < n

/-- Whether a run of letters is tame is told by its ends. -/
instance (r : LowerRange) : Decidable r.Tame := inferInstanceAs (Decidable (_ ∧ _))

/-- Every run in the table of letters is tame. -/
theorem tame_of_mem {r : LowerRange} (h : r ∈ lowerRanges) : r.Tame := by
  have hall : ∀ r ∈ lowerRanges, r.Tame := by decide +kernel
  exact hall r h

/-- Lowering a letter outside ASCII gives no white space and no ASCII capital. -/
theorem lowerChar_spec (h : 0x80 ≤ c.toNat) :
    0x5B ≤ (lowerChar c).toNat ∧ (isBlank (lowerChar c) = true → isBlank c = true) := by
  rw [lowerChar, if_neg (Nat.not_lt.2 h)]
  split
  next r hr =>
    obtain ⟨hleast, hvalid, hmost, hblank⟩ := tame_of_mem (List.mem_of_find?_eq_some hr)
    have hcovers : r.covers c.toNat = true := by simpa using List.find?_some hr
    simp only [LowerRange.covers, Bool.and_eq_true, decide_eq_true_eq] at hcovers
    obtain ⟨⟨hfirst, hlast⟩, -⟩ := hcovers
    have hn : (Char.ofNat (Int.toNat (c.toNat + r.shift))).toNat =
        Int.toNat (c.toNat + r.shift) := by
      rw [Char.toNat_ofNat, if_pos]
      unfold Nat.isValidChar
      omega
    refine ⟨by omega, fun hb => ?_⟩
    have hout := hblank _ (isBlank_iff.1 hb)
    omega
  next => exact ⟨by omega, id⟩

/-- What is lower case is so in ASCII. -/
theorem toLower_lowerChar (c : Char) : (lowerChar c).toLower = lowerChar c := by
  by_cases h : c.toNat < 0x80
  · rw [lowerChar, if_pos h, Char.toLower_toLower_eq_toLower]
  · exact toLower_of_le (lowerChar_spec (Nat.le_of_not_lt h)).1

/-- No letter is lowered to white space. -/
theorem isBlank_lowerChar (h : isBlank c = false) : isBlank (lowerChar c) = false := by
  refine Bool.eq_false_iff.2 fun hb => ?_
  by_cases hc : c.toNat < 0x80
  · rw [lowerChar, if_pos hc, isBlank_iff, toNat_toLower] at hb
    split at hb
    next hcapital =>
      have hnone : ∀ n ∈ blanks, ¬ (0x61 ≤ n ∧ n ≤ 0x7A) := by decide
      exact hnone _ hb (by omega)
    next =>
      rw [← isBlank_iff, h] at hb
      cases hb
  · rw [(lowerChar_spec (Nat.le_of_not_lt hc)).2 hb] at h
    cases h

/-! ## Texts -/

variable {cs w rest : List Char}

/-- The lower case of ASCII text goes letter by letter. -/
theorem lowerFrom_of_ascii (h : ∀ c ∈ cs, c.toNat < 0x80) (before : Bool) :
    lowerFrom before cs = cs.map Char.toLower := by
  induction cs generalizing before with
  | nil => rfl
  | cons c cs ih =>
    have hc := h c List.mem_cons_self
    have hdot : (c == '\u0130') = false := beq_false_of_ne fun heq => by simp [heq] at hc
    have hsigma : (c == 'Σ') = false := beq_false_of_ne fun heq => by simp [heq] at hc
    have hlower : lowerChar c = c.toLower := by rw [lowerChar, if_pos hc]
    simp only [lowerFrom, hdot, hsigma, hlower, Bool.false_eq_true, if_false,
      ih (fun c hc => h c (List.mem_cons_of_mem _ hc)), List.map_cons, List.singleton_append]

/-- A text is lowered letter by letter, with nothing cased before it. -/
theorem lowercase_eq (s : String) : lowercase s = .ofList (lowerFrom false s.toList) := by
  unfold lowercase
  split
  next h => rw [lowerFrom_of_ascii (by simpa using h)]
  next => rfl

/-- How one character is lowered: to itself in lower case, but for the two that are not lowered on
their own. -/
theorem exists_lowered (before : Bool) (c : Char) (cs : List Char) :
    ∃ l, lowerFrom before (c :: cs) = l ++ lowerFrom (casedAfter before c) cs ∧ l ≠ [] ∧
      (l = [lowerChar c] ∧ c ≠ '\u0130' ∨ l = ['i', '\u0307'] ∧ c = '\u0130' ∨
        (l = ['σ'] ∨ l = ['ς']) ∧ c = 'Σ') := by
  refine ⟨_, rfl, ?_⟩
  split
  next hdot => simp [beq_iff_eq.1 hdot]
  next hdot =>
    split
    next hsigma => split <;> simp [beq_iff_eq.1 hsigma]
    next => exact ⟨List.cons_ne_nil _ _, .inl ⟨rfl, fun heq => hdot (beq_iff_eq.2 heq)⟩⟩

/-- Lowering leaves something of a text that is not empty. -/
theorem lowerFrom_ne_nil (h : cs ≠ []) (before : Bool) : lowerFrom before cs ≠ [] := by
  cases cs with
  | nil => exact absurd rfl h
  | cons c cs =>
    obtain ⟨l, hl, hne, -⟩ := exists_lowered before c cs
    rw [hl]
    exact List.append_ne_nil_of_left_ne_nil hne _

/-- No white space comes in. -/
theorem isBlank_lowerFrom (h : ∀ c ∈ cs, isBlank c = false) (before : Bool) :
    ∀ c ∈ lowerFrom before cs, isBlank c = false := by
  induction cs generalizing before with
  | nil => simp [lowerFrom]
  | cons c cs ih =>
    obtain ⟨l, hl, -, hcases⟩ := exists_lowered before c cs
    have hhead : ∀ d ∈ l, isBlank d = false := by
      obtain ⟨rfl, -⟩ | ⟨rfl, -⟩ | ⟨rfl | rfl, -⟩ := hcases
      · simpa using isBlank_lowerChar (h c List.mem_cons_self)
      all_goals simp [isBlank]
    rw [hl]
    intro d hd
    rcases List.mem_append.1 hd with hd | hd
    · exact hhead d hd
    · exact ih (fun c hc => h c (List.mem_cons_of_mem _ hc)) _ d hd

/-- What is lower case is so in ASCII. -/
theorem map_toLower_lowerFrom (before : Bool) (cs : List Char) :
    (lowerFrom before cs).map Char.toLower = lowerFrom before cs := by
  induction cs generalizing before with
  | nil => rfl
  | cons c cs ih =>
    obtain ⟨l, hl, -, hcases⟩ := exists_lowered before c cs
    have hhead : l.map Char.toLower = l := by
      obtain ⟨rfl, -⟩ | ⟨rfl, -⟩ | ⟨rfl | rfl, -⟩ := hcases
      · rw [List.map_singleton, toLower_lowerChar]
      all_goals rfl
    rw [hl, List.map_append, hhead, ih]

/-- The lower case of a text has no capitals of ASCII. -/
theorem asciiLower_lowercase (s : String) : asciiLower (lowercase s) = lowercase s := by
  rw [lowercase_eq, asciiLower, String.toList_ofList, map_toLower_lowerFrom]

/-- The lower case is that of ASCII where every character outside it is its own lower case. -/
theorem lowerFrom_eq_map_toLower_iff (before : Bool) (cs : List Char) :
    lowerFrom before cs = cs.map Char.toLower ↔
      ∀ c ∈ cs, 0x80 ≤ c.toNat → c ≠ '\u0130' ∧ lowerChar c = c := by
  induction cs generalizing before with
  | nil => simp [lowerFrom]
  | cons c cs ih =>
    obtain ⟨l, hl, -, hcases⟩ := exists_lowered before c cs
    rw [hl, List.map_cons, List.forall_mem_cons, ← ih (casedAfter before c)]
    clear hl
    obtain ⟨rfl, hdot⟩ | ⟨rfl, rfl⟩ | ⟨hsigma, rfl⟩ := hcases
    · have hchar : lowerChar c = c.toLower ↔ (0x80 ≤ c.toNat → c ≠ '\u0130' ∧ lowerChar c = c) := by
        by_cases hc : c.toNat < 0x80
        · simp [lowerChar, hc, Nat.not_le.2 hc]
        · have hc := Nat.le_of_not_lt hc
          simp [toLower_of_le (Nat.le_trans (by decide) hc), hc, hdot]
      rw [List.singleton_append, List.cons_eq_cons, hchar]
    · simp
    · have hne : ('σ' : Char) ≠ Char.toLower 'Σ' ∧ ('ς' : Char) ≠ Char.toLower 'Σ' ∧
          0x80 ≤ 'Σ'.toNat ∧ lowerChar 'Σ' ≠ 'Σ' := by decide +kernel
      obtain rfl | rfl := hsigma <;> simp [hne]

/-- A text has the lower case of ASCII exactly if its other letters have no other lower case. -/
theorem lowercase_eq_asciiLower_iff (s : String) : lowercase s = asciiLower s ↔
    ∀ c ∈ s.toList, 0x80 ≤ c.toNat → c ≠ '\u0130' ∧ lowerChar c = c := by
  rw [lowercase_eq, asciiLower, String.ofList_inj, lowerFrom_eq_map_toLower_iff]

/-! ## White space in texts -/

/-- Whether a word goes on is told without what follows its white space. -/
theorem startsCased_append_blank {b : Char} (hb : isBlank b = true) (w rest : List Char) :
    startsCased (w ++ b :: rest) = startsCased w := by
  induction w with
  | nil =>
    simp only [List.nil_append, startsCased, isCaseIgnorable_of_isBlank hb, isCased_of_isBlank hb,
      Bool.false_eq_true, if_false]
  | cons c w ih => rw [List.cons_append, startsCased, ih, startsCased]

/-- White space stays as it is, and the word behind it is lowered anew. -/
theorem lowerFrom_cons_blank {b : Char} (hb : isBlank b = true) (before : Bool)
    (rest : List Char) : lowerFrom before (b :: rest) = b :: lowerFrom false rest := by
  have hdot : (b == '\u0130') = false := beq_false_of_ne fun heq => by simp [heq, isBlank] at hb
  have hsigma : (b == 'Σ') = false := beq_false_of_ne fun heq => by simp [heq, isBlank] at hb
  simp only [lowerFrom, hdot, hsigma, Bool.false_eq_true, if_false, lowerChar_of_isBlank hb,
    casedAfter_of_isBlank hb, List.singleton_append]

/-- White space separates what is lowered. -/
theorem lowerFrom_append_blank {b : Char} (hb : isBlank b = true) (before : Bool)
    (w rest : List Char) :
    lowerFrom before (w ++ b :: rest) = lowerFrom before w ++ b :: lowerFrom false rest := by
  induction w generalizing before with
  | nil => exact lowerFrom_cons_blank hb before rest
  | cons c w ih =>
    simp only [List.cons_append, lowerFrom, startsCased_append_blank hb, ih, List.append_assoc]

end HouseRules.Text
