import HouseRules.Proofs.Text.Lowercase

/-!
# Texts in lower case

Lowering a text a second time changes nothing (`Text.lowercase_lowercase`). Of the tables of letters
this needs that no lower letter is a capital of another run (`Text.LowerRange.apart`), which is
checked for every two runs.

The characters that give a line its shape are its marks: white space, the number sign and the double
quote. Every mark is its own lower case and no letter becomes a mark (`Text.LowersTo`), so a text
and its lower case have the same marks at the same places.
-/

namespace HouseRules.Text

/-! ## Lower letters -/

/-- The lower letters of a run reach from here -/
def LowerRange.lowFirst (r : LowerRange) : Nat := (r.first + r.shift).toNat

/-- ... to here. -/
def LowerRange.lowLast (r : LowerRange) : Nat := (r.last + r.shift).toNat

/-- Whether no lower letter of the first run is a capital of the second: it lies outside the second
run, or in the gaps of it. -/
def LowerRange.apart (r s : LowerRange) : Bool :=
  Nat.blt r.lowLast s.first || Nat.blt s.last r.lowFirst ||
    (r.first == r.last || r.step == 2) && s.step == 2 && r.lowFirst % 2 != s.first % 2

/-- No two runs of the table have a lower letter of one as a capital of the other. -/
theorem apart_of_mem {r s : LowerRange} (hr : r ∈ lowerRanges) (hs : s ∈ lowerRanges) :
    r.apart s = true := by
  have hall : (lowerRanges.all fun r => lowerRanges.all fun s => r.apart s) = true := by
    decide +kernel
  exact List.all_eq_true.1 (List.all_eq_true.1 hall r hr) s hs

/-- A lower letter of a tame run is no capital of a run that is apart from it. -/
theorem LowerRange.Tame.not_covers {r s : LowerRange} (htame : r.Tame) (h : r.apart s = true)
    {m n : Nat} (hn : r.covers n = true) (hm : (m : Int) = n + r.shift) : s.covers m = false := by
  have hleast := htame.1
  refine Bool.eq_false_iff.2 fun hs => ?_
  simp only [LowerRange.covers, Bool.and_eq_true, decide_eq_true_eq, beq_iff_eq] at hn hs
  obtain ⟨⟨hfirst, hlast⟩, hstep⟩ := hn
  obtain ⟨⟨hfirst', hlast'⟩, hstep'⟩ := hs
  simp only [LowerRange.apart, lowFirst, lowLast, Nat.blt_eq, Bool.or_eq_true, Bool.and_eq_true,
    beq_iff_eq, bne_iff_ne, or_assoc, and_assoc] at h
  obtain hbelow | habove | ⟨hgap, htwo, hodd⟩ := h
  · omega
  · omega
  · rw [htwo] at hstep'
    -- The lower letters of the first run have one parity, the capitals of the second the other.
    obtain hone | htwo := hgap
    · omega
    · rw [htwo] at hstep
      omega

variable {c : Char}

/-- A run that covers a letter lowers it. -/
theorem toNat_lowerChar {r : LowerRange} (h : 0x80 ≤ c.toNat)
    (hr : lowerRanges.find? (·.covers c.toNat) = some r) :
    ((lowerChar c).toNat : Int) = c.toNat + r.shift := by
  obtain ⟨hleast, hvalid, hmost, -⟩ := tame_of_mem (List.mem_of_find?_eq_some hr)
  have hcovers : r.covers c.toNat = true := by simpa using List.find?_some hr
  simp only [LowerRange.covers, Bool.and_eq_true, decide_eq_true_eq] at hcovers
  obtain ⟨⟨hfirst, hlast⟩, -⟩ := hcovers
  rw [lowerChar, if_neg (Nat.not_lt.2 h), hr, Char.toNat_ofNat, if_pos]
  · omega
  · unfold Nat.isValidChar
    omega

/-- A character is in lower case: it is lowered to itself wherever it stands. -/
def IsLower (c : Char) : Prop := c ≠ '\u0130' ∧ c ≠ 'Σ' ∧ lowerChar c = c

/-- Whether a character is in lower case can be looked up. -/
instance (c : Char) : Decidable (IsLower c) := inferInstanceAs (Decidable (_ ∧ _))

/-- Lowering a letter a second time changes nothing. -/
theorem lowerChar_lowerChar (c : Char) : lowerChar (lowerChar c) = lowerChar c := by
  by_cases hc : c.toNat < 0x80
  · have hlower : lowerChar c = c.toLower := by rw [lowerChar, if_pos hc]
    have hascii : c.toLower.toNat < 0x80 := by
      rw [toNat_toLower]
      split <;> omega
    rw [hlower, lowerChar, if_pos hascii, Char.toLower_toLower_eq_toLower]
  · have hc := Nat.le_of_not_lt hc
    cases hr : lowerRanges.find? (·.covers c.toNat) with
    | none =>
      have hlower : lowerChar c = c := by rw [lowerChar, if_neg (Nat.not_lt.2 hc), hr]
      rw [hlower, hlower]
    | some r =>
      have hcovers : r.covers c.toNat = true := by simpa using List.find?_some hr
      have hnone : lowerRanges.find? (·.covers (lowerChar c).toNat) = none := by
        refine List.find?_eq_none.2 fun s hs => ?_
        have hmem := List.mem_of_find?_eq_some hr
        exact Bool.not_eq_true _ ▸
          (tame_of_mem hmem).not_covers (apart_of_mem hmem hs) hcovers (toNat_lowerChar hc hr)
      conv_lhs => rw [lowerChar]
      split
      · exact toLower_lowerChar c
      · rw [hnone]

/-- No lower letter is U+0130. -/
theorem lowerChar_ne_dotted (h : c ≠ '\u0130') : lowerChar c ≠ '\u0130' := by
  intro heq
  by_cases hc : c.toNat < 0x80
  · rw [lowerChar, if_pos hc] at heq
    have hdot := congrArg Char.toNat heq
    rw [toNat_toLower, show '\u0130'.toNat = 0x130 from rfl] at hdot
    split at hdot <;> omega
  · have hc := Nat.le_of_not_lt hc
    cases hr : lowerRanges.find? (·.covers c.toNat) with
    | none => exact h (by rw [← heq, lowerChar, if_neg (Nat.not_lt.2 hc), hr])
    | some r =>
      have hall : ∀ r ∈ lowerRanges, (0x130 : Int) < r.first + r.shift ∨
          r.last + r.shift < 0x130 := by
        decide +kernel
      have hout := hall r (List.mem_of_find?_eq_some hr)
      have hcovers : r.covers c.toNat = true := by simpa using List.find?_some hr
      simp only [LowerRange.covers, Bool.and_eq_true, decide_eq_true_eq] at hcovers
      have hshift := toNat_lowerChar hc hr
      rw [heq, show '\u0130'.toNat = 0x130 from rfl] at hshift
      omega

/-- A letter that is lowered is in lower case, but for the dotted capital I. -/
theorem isLower_lowerChar (h : c ≠ '\u0130') : IsLower (lowerChar c) := by
  refine ⟨lowerChar_ne_dotted h, fun heq => ?_, lowerChar_lowerChar c⟩
  have hsigma : lowerChar 'Σ' ≠ 'Σ' := by decide +kernel
  exact hsigma (heq ▸ lowerChar_lowerChar c)

/-! ## Marks -/

/-- A character that gives a line its shape. -/
def IsMark (c : Char) : Prop := isBlank c = true ∨ c = '#' ∨ c = '"'

/-- Whether a character is a mark can be looked up. -/
instance (c : Char) : Decidable (IsMark c) := inferInstanceAs (Decidable (_ ∨ _))

/-- A mark is its own lower case. -/
theorem lowerChar_of_isMark (h : IsMark c) : lowerChar c = c := by
  obtain h | rfl | rfl := h
  · exact lowerChar_of_isBlank h
  · decide
  · decide

/-- Lowering a letter gives no mark. -/
theorem not_isMark_lowerChar (h : ¬ IsMark c) : ¬ IsMark (lowerChar c) := by
  simp only [IsMark, not_or, Bool.not_eq_true] at h
  obtain ⟨hblank, hsign, hquote⟩ := h
  -- A letter that changes is lowered past the ASCII capitals, where only white space is a mark.
  have hpast : lowerChar c = c ∨ 0x5B ≤ (lowerChar c).toNat := by
    by_cases hc : c.toNat < 0x80
    · rw [lowerChar, if_pos hc, toNat_toLower]
      split
      · right; omega
      next hcapital => exact .inl (Char.toNat_inj.1 (by rw [toNat_toLower, if_neg hcapital]))
    · exact .inr (lowerChar_spec (Nat.le_of_not_lt hc)).1
  rintro (hlow | hlow | hlow)
  · rw [isBlank_lowerChar hblank] at hlow
    cases hlow
  all_goals
    obtain heq | hpast := hpast
    · first
      | exact hsign (heq ▸ hlow)
      | exact hquote (heq ▸ hlow)
    · rw [hlow] at hpast
      revert hpast
      decide

/-- What one character becomes: itself if it is a mark, and else letters in lower case. -/
structure LowersTo (c : Char) (l : List Char) : Prop where
  ne_nil : l ≠ []
  isLower : ∀ d ∈ l, IsLower d
  mark : IsMark c → l = [c]
  letter : ¬ IsMark c → ∀ d ∈ l, ¬ IsMark d

/-- The letters that the two characters not lowered on their own become. -/
theorem isLower_of_mem_lowered : ∀ d ∈ ['i', '\u0307', 'σ', 'ς'], IsLower d ∧ ¬ IsMark d := by
  have hlower : ∀ d ∈ ['i', '\u0307', 'σ', 'ς'], d ≠ '\u0130' ∧ lowerChar d = d := by
    simp only [List.forall_mem_cons]
    refine ⟨⟨?_, ?_⟩, ⟨?_, ?_⟩, ⟨?_, ?_⟩, ⟨?_, ?_⟩, List.forall_mem_nil _⟩ <;> decide +kernel
  intro d hd
  obtain ⟨hdot, heq⟩ := hlower d hd
  refine ⟨heq ▸ isLower_lowerChar hdot, ?_⟩
  simp only [List.mem_cons, List.not_mem_nil, or_false] at hd
  obtain rfl | rfl | rfl | rfl := hd <;> simp [IsMark, isBlank]

/-- A text is lowered character by character. -/
theorem lowerFrom_cons (before : Bool) (c : Char) (cs : List Char) :
    ∃ l, LowersTo c l ∧
      lowerFrom before (c :: cs) = l ++ lowerFrom (casedAfter before c) cs := by
  obtain ⟨l, hl, hne, hcases⟩ := exists_lowered before c cs
  refine ⟨l, ?_, hl⟩
  have hother : ∀ c, ¬ IsMark c → l ⊆ ['i', '\u0307', 'σ', 'ς'] → LowersTo c l := fun c hc hsub =>
    ⟨hne, fun d hd => (isLower_of_mem_lowered d (hsub hd)).1, fun h => absurd h hc,
      fun _ d hd => (isLower_of_mem_lowered d (hsub hd)).2⟩
  obtain ⟨rfl, hdot⟩ | ⟨rfl, rfl⟩ | ⟨rfl | rfl, rfl⟩ := hcases
  · exact ⟨hne, by simpa using isLower_lowerChar hdot, fun h => by rw [lowerChar_of_isMark h],
      fun h => by simpa using not_isMark_lowerChar h⟩
  all_goals exact hother _ (by simp [IsMark, isBlank]) (by simp)

/-! ## Texts -/

variable {cs : List Char}

/-- Every letter of a text that is lowered is in lower case. -/
theorem isLower_of_mem_lowerFrom (before : Bool) : ∀ d ∈ lowerFrom before cs, IsLower d := by
  induction cs generalizing before with
  | nil => simp [lowerFrom]
  | cons c cs ih =>
    obtain ⟨l, hl, heq⟩ := lowerFrom_cons before c cs
    rw [heq]
    exact fun d hd => (List.mem_append.1 hd).elim (hl.isLower d) (ih _ d)

/-- A text of letters in lower case stays as it is. -/
theorem lowerFrom_of_isLower (h : ∀ c ∈ cs, IsLower c) (before : Bool) :
    lowerFrom before cs = cs := by
  induction cs generalizing before with
  | nil => rfl
  | cons c cs ih =>
    obtain ⟨⟨hdot, hsigma, hlower⟩, hcs⟩ := List.forall_mem_cons.1 h
    simp only [lowerFrom, beq_false_of_ne hdot, beq_false_of_ne hsigma, hlower, Bool.false_eq_true,
      if_false, ih hcs, List.singleton_append]

/-- Lowering a text a second time changes nothing. -/
theorem lowercase_lowercase (s : String) : lowercase (lowercase s) = lowercase s := by
  rw [lowercase_eq (lowercase s), lowercase_eq s, String.toList_ofList,
    lowerFrom_of_isLower (isLower_of_mem_lowerFrom false)]

/-- What is its own lower case consists of lower letters. -/
theorem isLower_of_lowercase_eq {s : String} (h : lowercase s = s) : ∀ c ∈ s.toList, IsLower c := by
  have hlist : s.toList = lowerFrom false s.toList := by
    conv_lhs => rw [← h, lowercase_eq, String.toList_ofList]
  rw [hlist]
  exact isLower_of_mem_lowerFrom false

/-- A text in lower case is its own lower case. -/
theorem lowercase_of_isLower {s : String} (h : ∀ c ∈ s.toList, IsLower c) : lowercase s = s := by
  rw [lowercase_eq, lowerFrom_of_isLower h, String.ofList_toList]

/-- No mark comes in. -/
theorem mem_of_mem_lowerFrom {d : Char} (hmark : IsMark d) {before : Bool}
    (h : d ∈ lowerFrom before cs) : d ∈ cs := by
  induction cs generalizing before with
  | nil => simp [lowerFrom] at h
  | cons c cs ih =>
    obtain ⟨l, hl, heq⟩ := lowerFrom_cons before c cs
    rw [heq, List.mem_append] at h
    rcases h with h | h
    · by_cases hc : IsMark c
      · rw [hl.mark hc, List.mem_singleton] at h
        exact h ▸ List.mem_cons_self
      · exact absurd hmark (hl.letter hc d h)
    · exact List.mem_cons_of_mem _ (ih h)

/-- What a character becomes is white space just where the character is. -/
theorem LowersTo.isBlank_eq_false {l : List Char} (h : LowersTo c l) (hc : isBlank c = false) :
    ∀ d ∈ l, isBlank d = false := by
  intro d hd
  by_cases hmark : IsMark c
  · rw [h.mark hmark, List.mem_singleton] at hd
    exact hd ▸ hc
  · exact Bool.eq_false_iff.2 fun hblank => h.letter hmark d hd (.inl hblank)

/-- A text that does not begin with white space does not when it is lowered. -/
theorem isBlank_head?_lowerFrom (h : ∀ c ∈ cs.head?, isBlank c = false) (before : Bool) :
    ∀ d ∈ (lowerFrom before cs).head?, isBlank d = false := by
  cases cs with
  | nil => simp [lowerFrom]
  | cons c cs =>
    obtain ⟨l, hl, heq⟩ := lowerFrom_cons before c cs
    rw [heq, List.head?_append_of_ne_nil _ hl.ne_nil]
    exact fun d hd => hl.isBlank_eq_false (h c rfl) d (List.mem_of_mem_head? hd)

/-- A text that does not end in white space does not when it is lowered. -/
theorem isBlank_getLast?_lowerFrom (h : ∀ c ∈ cs.getLast?, isBlank c = false) (before : Bool) :
    ∀ d ∈ (lowerFrom before cs).getLast?, isBlank d = false := by
  induction cs generalizing before with
  | nil => simp [lowerFrom]
  | cons c cs ih =>
    obtain ⟨l, hl, heq⟩ := lowerFrom_cons before c cs
    rw [heq]
    by_cases hcs : cs = []
    · subst hcs
      rw [lowerFrom, List.append_nil]
      exact fun d hd => hl.isBlank_eq_false (h c rfl) d (List.mem_of_mem_getLast? hd)
    · rw [List.getLast?_append_of_ne_nil _ (lowerFrom_ne_nil hcs _)]
      refine ih (fun d hd => h d ?_) _
      rwa [← List.singleton_append, List.getLast?_append_of_ne_nil _ hcs]

end HouseRules.Text
