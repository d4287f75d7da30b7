import HouseRules.Proofs.Document
import HouseRules.Proofs.Text.Lowercase

/-!
# The words of a line

What is to be known about words comes down to one equation: white space separates them
(`Text.wordsOf_append_blank`). Read backwards, it says where the words of a line stand
(`Text.exists_of_wordsOf_cons`). So a line of two words, but for white space and a comment, has a
normal form of two words, each in lower case, the second of which is what follows the first
(`Document.normalLine_of_words`).
-/

namespace HouseRules

namespace Text

variable {cs a m b w : List Char}

/-! ## Words and white space -/

/-- White space separates words. -/
theorem wordsOf_append_blank {c : Char} (hc : isBlank c = true) (x y : List Char) :
    wordsOf (x ++ c :: y) = wordsOf x ++ wordsOf y := by
  rw [wordsOf, pieces_append hc, List.filter_append, wordsOf, wordsOf]

/-- White space in front of a line is not seen. -/
theorem wordsOf_blank_append (ha : ∀ c ∈ a, isBlank c = true) (cs : List Char) :
    wordsOf (a ++ cs) = wordsOf cs := by
  induction a with
  | nil => rfl
  | cons c a ih =>
    have hcons := wordsOf_append_blank (ha c List.mem_cons_self) [] (a ++ cs)
    exact hcons.trans (ih fun c hc => ha c (List.mem_cons_of_mem _ hc))

/-- Text without white space is a word. -/
theorem wordsOf_word (hw : ∀ c ∈ w, isBlank c = false) (hne : w ≠ []) : wordsOf w = [w] := by
  rw [wordsOf, pieces_of_forall hw, List.filter_cons_of_pos (by simpa using hne), List.filter_nil]

/-- White space in front, a word, and what follows it; all of it is white space if there is no
word. -/
theorem exists_parts (cs : List Char) : ∃ a w rest, cs = a ++ (w ++ rest) ∧
    (∀ c ∈ a, isBlank c = true) ∧ (∀ c ∈ w, isBlank c = false) ∧
    (∀ c ∈ rest.head?, isBlank c = true) ∧ (w = [] → rest = []) := by
  induction cs with
  | nil => exact ⟨[], [], [], rfl, by simp⟩
  | cons c cs ih =>
    obtain ⟨a, w, rest, rfl, ha, hw, hrest, hnil⟩ := ih
    cases hc : isBlank c with
    | true => exact ⟨c :: a, w, rest, rfl, List.forall_mem_cons.2 ⟨hc, ha⟩, hw, hrest, hnil⟩
    | false =>
      cases a with
      | nil =>
        exact ⟨[], c :: w, rest, rfl, by simp, List.forall_mem_cons.2 ⟨hc, hw⟩, hrest, by simp⟩
      | cons b a =>
        have hb := ha b List.mem_cons_self
        exact ⟨[], [c], b :: (a ++ (w ++ rest)), rfl, by simp, by simp [hc], by simp [hb], by simp⟩

/-- A word with white space in front and none in it is the first word, if white space follows or
nothing. -/
theorem wordsOf_parts {rest : List Char} (ha : ∀ c ∈ a, isBlank c = true)
    (hw : ∀ c ∈ w, isBlank c = false) (hrest : ∀ c ∈ rest.head?, isBlank c = true) (hne : w ≠ []) :
    wordsOf (a ++ (w ++ rest)) = w :: wordsOf rest := by
  rw [wordsOf_blank_append ha]
  cases rest with
  | nil => rw [List.append_nil, wordsOf_word hw hne]; rfl
  | cons c rest =>
    have hc := hrest c rfl
    have hfront : wordsOf (c :: rest) = wordsOf rest := wordsOf_append_blank hc [] rest
    rw [wordsOf_append_blank hc, wordsOf_word hw hne, hfront, List.singleton_append]

/-- Where the first word of a text stands. -/
theorem exists_of_wordsOf_cons {ws : List (List Char)} (h : wordsOf cs = w :: ws) :
    ∃ a rest, cs = a ++ (w ++ rest) ∧ (∀ c ∈ a, isBlank c = true) ∧ w ≠ [] ∧
      (∀ c ∈ w, isBlank c = false) ∧ (∀ c ∈ rest.head?, isBlank c = true) ∧ wordsOf rest = ws := by
  obtain ⟨a, w', rest, rfl, ha, hw, hrest, hnil⟩ := exists_parts cs
  by_cases hne : w' = []
  · rw [hne, hnil hne, wordsOf_blank_append ha] at h
    cases h
  · rw [wordsOf_parts ha hw hrest hne, List.cons_eq_cons] at h
    obtain ⟨rfl, hws⟩ := h
    exact ⟨a, rest, rfl, ha, hne, hw, hrest, hws⟩

/-- A text without a word is white space. -/
theorem isBlank_of_wordsOf_eq_nil (h : wordsOf cs = []) : ∀ c ∈ cs, isBlank c = true := by
  obtain ⟨a, w, rest, rfl, ha, hw, hrest, hnil⟩ := exists_parts cs
  by_cases hne : w = []
  · rwa [hne, hnil hne, List.nil_append, List.append_nil]
  · rw [wordsOf_parts ha hw hrest hne] at h
    cases h

/-! ## White space at the ends -/

/-- Trimming the start takes off white space up to the first other character. -/
theorem trimStart_blank_append (ha : ∀ c ∈ a, isBlank c = true)
    (hm : ∀ c ∈ m.head?, isBlank c = false) : trimStart (a ++ m) = m := by
  rw [trimStart, List.dropWhile_append_of_pos ha]
  exact trimStart_of_head? hm

/-- Trimming takes white space from both ends. -/
theorem trimChars_append (ha : ∀ c ∈ a, isBlank c = true) (hb : ∀ c ∈ b, isBlank c = true)
    (hne : m ≠ []) (hhead : ∀ c ∈ m.head?, isBlank c = false)
    (hlast : ∀ c ∈ m.getLast?, isBlank c = false) : trimChars (a ++ (m ++ b)) = m := by
  have hfront : ∀ c ∈ (m ++ b).head?, isBlank c = false := by
    rwa [List.head?_append_of_ne_nil _ hne]
  have hback : ∀ c ∈ m.reverse.head?, isBlank c = false := by rwa [List.head?_reverse]
  have hreverse : ∀ c ∈ b.reverse, isBlank c = true := fun c hc => hb c (List.mem_reverse.1 hc)
  rw [trimChars, trimStart_blank_append ha hfront, List.reverse_append,
    trimStart_blank_append hreverse hback, List.reverse_reverse]

/-- Nothing is left by trimming exactly if there is only white space. -/
theorem trimChars_eq_nil_iff : trimChars cs = [] ↔ ∀ c ∈ cs, isBlank c = true := by
  constructor
  · intro h
    obtain ⟨a, w, rest, rfl, ha, hw, hrest, hnil⟩ := exists_parts cs
    by_cases hne : w = []
    · rwa [hne, hnil hne, List.nil_append, List.append_nil]
    · have hhead : ∀ c ∈ (w ++ rest).head?, isBlank c = false := by
        rw [List.head?_append_of_ne_nil _ hne]
        exact fun c hc => hw c (List.mem_of_mem_head? hc)
      obtain ⟨c, w, rfl⟩ := List.exists_cons_of_ne_nil hne
      rw [trimChars, trimStart_blank_append ha hhead, List.reverse_eq_nil_iff, trimStart,
        List.dropWhile_eq_nil_iff] at h
      exact absurd (h c (by simp)) (by simp [hw c List.mem_cons_self])
  · intro h
    have hstart : trimStart cs = [] := List.dropWhile_eq_nil_iff.2 h
    rw [trimChars, hstart]
    rfl

/-- A line has no words exactly if there is only white space. -/
theorem wordsOf_eq_nil_iff : wordsOf cs = [] ↔ ∀ c ∈ cs, isBlank c = true := by
  refine ⟨isBlank_of_wordsOf_eq_nil, fun h => ?_⟩
  rw [← List.append_nil cs, wordsOf_blank_append h]
  rfl

/-- What is left by trimming the start does not begin with white space. -/
theorem isBlank_head?_trimStart : ∀ c ∈ (trimStart cs).head?, isBlank c = false := by
  intro c hc
  have h := List.head?_dropWhile_not isBlank cs
  rw [trimStart] at hc
  rw [hc] at h
  exact h

/-- What is left by trimming does not end in white space. -/
theorem isBlank_getLast?_trimChars : ∀ c ∈ (trimChars cs).getLast?, isBlank c = false := by
  intro c hc
  rw [trimChars, List.getLast?_reverse] at hc
  exact isBlank_head?_trimStart c hc

/-- What is left by trimming does not begin with white space. -/
theorem isBlank_head?_trimChars : ∀ c ∈ (trimChars cs).head?, isBlank c = false := by
  intro c hc
  rw [trimChars, List.head?_reverse, trimStart] at hc
  -- What is left after dropping from the front ends as before.
  have hsuffix : (trimStart cs).reverse.dropWhile isBlank <:+ (trimStart cs).reverse :=
    List.dropWhile_suffix _
  obtain ⟨front, hfront⟩ := hsuffix
  have hlast : (trimStart cs).reverse.getLast? = some c := by
    rw [← hfront, List.getLast?_append, hc]
    rfl
  rw [List.getLast?_reverse] at hlast
  exact isBlank_head?_trimStart c hlast

/-- Trimming takes white space from both ends and nothing else. -/
theorem exists_trimChars_parts (cs : List Char) : ∃ a b, cs = a ++ (trimChars cs ++ b) ∧
    (∀ c ∈ a, isBlank c = true) ∧ ∀ c ∈ b, isBlank c = true := by
  have hback : trimStart cs =
      trimChars cs ++ ((trimStart cs).reverse.takeWhile isBlank).reverse := by
    have hsplit := List.takeWhile_append_dropWhile (p := isBlank) (l := (trimStart cs).reverse)
    have hreverse := congrArg List.reverse hsplit
    rw [List.reverse_append, List.reverse_reverse] at hreverse
    exact hreverse.symm
  refine ⟨cs.takeWhile isBlank, ((trimStart cs).reverse.takeWhile isBlank).reverse, ?_, ?_, ?_⟩
  · rw [← hback]
    exact List.takeWhile_append_dropWhile.symm
  · exact fun c hc => List.mem_takeWhile_imp hc
  · exact fun c hc => List.mem_takeWhile_imp (List.mem_reverse.1 hc)

/-- White space behind a line is trimmed. -/
theorem trimChars_append_blank {gap : List Char} (hgap : ∀ c ∈ gap, isBlank c = true) :
    trimChars (cs ++ gap) = trimChars cs := by
  by_cases hnil : trimChars cs = []
  · rw [hnil, trimChars_eq_nil_iff]
    exact fun c hc => (List.mem_append.1 hc).elim (trimChars_eq_nil_iff.1 hnil c) (hgap c)
  · obtain ⟨a, b, hparts, ha, hb⟩ := exists_trimChars_parts cs
    have hback : ∀ c ∈ b ++ gap, isBlank c = true := fun c hc =>
      (List.mem_append.1 hc).elim (hb c) (hgap c)
    have htrim := trimChars_append ha hback hnil isBlank_head?_trimChars
      isBlank_getLast?_trimChars
    rwa [← List.append_assoc (trimChars cs), ← List.append_assoc a, ← hparts] at htrim

/-- White space at the ends belongs to no word. -/
theorem wordsOf_trimChars (cs : List Char) : wordsOf (trimChars cs) = wordsOf cs := by
  obtain ⟨a, b, hparts, ha, hb⟩ := exists_trimChars_parts cs
  have hcs : wordsOf cs = wordsOf (trimChars cs ++ b) := by
    conv_lhs => rw [hparts]
    exact wordsOf_blank_append ha _
  rw [hcs]
  cases b with
  | nil => rw [List.append_nil]
  | cons c b =>
    obtain ⟨hc, hb⟩ := List.forall_mem_cons.1 hb
    rw [wordsOf_append_blank hc, wordsOf_eq_nil_iff.2 hb, List.append_nil]

/-- The words of a text hold no white space. -/
theorem isBlank_of_mem_wordsOf (h : w ∈ wordsOf cs) : ∀ c ∈ w, isBlank c = false := by
  generalize hws : wordsOf cs = ws at h
  induction ws generalizing cs with
  | nil => cases h
  | cons v ws ih =>
    obtain ⟨a, rest, -, -, -, hv, -, hrest⟩ := exists_of_wordsOf_cons hws
    rcases List.mem_cons.1 h with rfl | h
    · exact hv
    · exact ih hrest h

/-- Trimmed text of one word is that word. -/
theorem wordsOf_trimChars_eq_singleton (h : wordsOf (trimChars cs) = [w]) : trimChars cs = w := by
  obtain ⟨a, rest, hparts, ha, hne, -, -, hrest⟩ := exists_of_wordsOf_cons h
  have hblank := isBlank_of_wordsOf_eq_nil hrest
  have hfront : a = [] := by
    cases a with
    | nil => rfl
    | cons c a =>
      have hhead : c ∈ (trimChars cs).head? := by
        rw [hparts]
        rfl
      have hc := isBlank_head?_trimChars c hhead
      exact absurd (ha c List.mem_cons_self) (by simp [hc])
  have hback : rest = [] := by
    rw [← List.getLast?_eq_none_iff]
    cases hlast : rest.getLast? with
    | none => rfl
    | some c =>
      have hend : c ∈ (trimChars cs).getLast? := by
        rw [hparts, List.getLast?_append, List.getLast?_append, hlast]
        rfl
      have hc := isBlank_getLast?_trimChars c hend
      exact absurd (hblank c (List.mem_of_getLast? hlast)) (by simp [hc])
  rw [hparts, hfront, hback, List.nil_append, List.append_nil]

/-- What follows the first word of a line holds the other words. -/
theorem words_afterFirstWord (line : String) :
    words (afterFirstWord line) = (words line).tail := by
  obtain ⟨a, w, rest, hline, ha, hw, hrest, hnil⟩ := exists_parts line.toList
  have hbehind : rest.dropWhile (!isBlank ·) = rest := by
    cases rest with
    | nil => rfl
    | cons c rest => exact List.dropWhile_cons_of_neg (by simp [hrest c rfl])
  have hafter : (trimStart line.toList).dropWhile (!isBlank ·) = rest := by
    by_cases hne : w = []
    · have hstart : trimStart line.toList = [] := by
        rw [hline, hne, hnil hne, trimStart, List.dropWhile_eq_nil_iff]
        simpa using ha
      rw [hstart, hnil hne]
      rfl
    · have hhead : ∀ c ∈ (w ++ rest).head?, isBlank c = false := by
        rw [List.head?_append_of_ne_nil _ hne]
        exact fun c hc => hw c (List.mem_of_mem_head? hc)
      rw [hline, trimStart_blank_append ha hhead,
        List.dropWhile_append_of_pos (by simpa using hw), hbehind]
  rw [words, words, afterFirstWord, hafter, String.toList_ofList, wordsOf_trimChars, hline]
  by_cases hne : w = []
  · rw [hne, hnil hne, wordsOf_blank_append ha]
    rfl
  · rw [wordsOf_parts ha hw hrest hne, List.map_cons, List.tail_cons]

/-- Trimming brings in no character. -/
theorem trimChars_subset (cs : List Char) : trimChars cs ⊆ cs := by
  obtain ⟨a, b, hparts, -, -⟩ := exists_trimChars_parts cs
  intro c hc
  rw [hparts]
  exact List.mem_append_right _ (List.mem_append_left _ hc)

/-- What follows the first word brings in no character. -/
theorem afterFirstWord_subset (line : String) : (afterFirstWord line).toList ⊆ line.toList := by
  rw [afterFirstWord, String.toList_ofList]
  exact List.Subset.trans (trimChars_subset _)
    (List.Subset.trans (List.dropWhile_suffix _).subset (List.dropWhile_suffix _).subset)

/-- What follows the first word of a line is nothing if it holds no word. -/
theorem afterFirstWord_eq_empty_iff_words {line : String} :
    afterFirstWord line = "" ↔ words (afterFirstWord line) = [] := by
  rw [words, List.map_eq_nil_iff, wordsOf_eq_nil_iff]
  constructor
  · rintro hempty c hc
    rw [hempty] at hc
    cases hc
  · intro hblank
    rw [afterFirstWord, String.toList_ofList, ← trimChars_eq_nil_iff] at hblank
    rw [afterFirstWord, ← String.toList_inj, String.toList_ofList]
    exact (trimChars_of_ends isBlank_head?_trimChars isBlank_getLast?_trimChars).symm.trans hblank

/-- Something follows the first word of a line just if the line has a second word. -/
theorem afterFirstWord_eq_empty_iff {line : String} :
    afterFirstWord line = "" ↔ (words line).length ≤ 1 := by
  rw [afterFirstWord_eq_empty_iff_words, words_afterFirstWord, ← List.length_eq_zero_iff,
    List.length_tail]
  omega

/-! ## Words -/

/-- A text is a word: it is not empty and holds no white space. -/
def IsWord (s : String) : Prop := s ≠ "" ∧ ∀ c ∈ s.toList, isBlank c = false

/-- Every word of a line is a word. -/
theorem isWord_of_mem_words {s name : String} (h : name ∈ words s) : IsWord name := by
  obtain ⟨w, hw, rfl⟩ := List.mem_map.1 h
  constructor
  · intro hempty
    exact ne_nil_of_mem_wordsOf hw (by simpa using congrArg String.toList hempty)
  · rw [String.toList_ofList]
    exact isBlank_of_mem_wordsOf hw

/-- What follows the first word of a line is a word if it has just one. -/
theorem isWord_afterFirstWord {line : String} (h : (words (afterFirstWord line)).length = 1) :
    IsWord (afterFirstWord line) := by
  obtain ⟨w, hw⟩ := List.length_eq_one_iff.1 h
  have hmem : w ∈ words (afterFirstWord line) := hw ▸ List.mem_singleton_self w
  rw [words, List.map_eq_singleton_iff, afterFirstWord, String.toList_ofList] at hw
  obtain ⟨cs, hcs, rfl⟩ := hw
  have heq := wordsOf_trimChars_eq_singleton hcs
  have hword := isWord_of_mem_words hmem
  rw [afterFirstWord, heq]
  exact hword

/-- A word has a character. -/
theorem IsWord.toList_ne_nil {s : String} (h : IsWord s) : s.toList ≠ [] := fun hnil =>
  h.1 (String.toList_inj.1 hnil)

/-- What follows the first word of a line is a word if it holds just that. -/
theorem afterFirstWord_eq_of_words {line w : String} (h : words (afterFirstWord line) = [w]) :
    afterFirstWord line = w := by
  rw [words, List.map_eq_singleton_iff, afterFirstWord, String.toList_ofList] at h
  obtain ⟨cs, hcs, rfl⟩ := h
  rw [afterFirstWord, wordsOf_trimChars_eq_singleton hcs]

/-- Words joined by spaces begin with the first of them and a space. -/
theorem toList_intercalate_cons_cons (w w' : String) (ws : List String) :
    (" ".intercalate (w :: w' :: ws)).toList =
      w.toList ++ ' ' :: (" ".intercalate (w' :: ws)).toList := by
  have hspace : " ".toList = [' '] := rfl
  simp only [String.toList_intercalate, hspace, List.map_cons, List.intercalate_cons_cons,
    List.append_assoc, List.singleton_append]

/-- One word joined is this word. -/
theorem toList_intercalate_singleton (w : String) : (" ".intercalate [w]).toList = w.toList := by
  rw [String.toList_intercalate, List.map_singleton, List.intercalate_singleton]

/-- Words joined by spaces are the words of the line. -/
theorem words_intercalate {ws : List String} (h : ∀ w ∈ ws, IsWord w) :
    words (" ".intercalate ws) = ws := by
  rw [words]
  induction ws with
  | nil => rfl
  | cons w ws ih =>
    obtain ⟨hw, hws⟩ := List.forall_mem_cons.1 h
    have hword : wordsOf w.toList = [w.toList] := wordsOf_word hw.2 hw.toList_ne_nil
    cases ws with
    | nil => rw [toList_intercalate_singleton, hword, List.map_singleton, String.ofList_toList]
    | cons w' ws =>
      rw [toList_intercalate_cons_cons, wordsOf_append_blank (by rfl), hword,
        List.singleton_append, List.map_cons, ih hws, String.ofList_toList]

/-- The first word of joined words is the first of them. -/
theorem firstWord_intercalate {w : String} {ws : List String} (h : ∀ v ∈ w :: ws, IsWord v) :
    firstWord (" ".intercalate (w :: ws)) = w := by
  rw [firstWord, words_intercalate h, List.headD_cons]

/-- The words behind the first one of joined words are the others. -/
theorem words_afterFirstWord_intercalate {w : String} {ws : List String}
    (h : ∀ v ∈ w :: ws, IsWord v) :
    words (afterFirstWord (" ".intercalate (w :: ws))) = ws := by
  rw [words_afterFirstWord, words_intercalate h, List.tail_cons]

/-- A character of joined words is a space or one of a word. -/
theorem mem_intercalate {ws : List String} {c : Char} (h : c ∈ (" ".intercalate ws).toList) :
    c = ' ' ∨ ∃ w ∈ ws, c ∈ w.toList := by
  induction ws with
  | nil => cases h
  | cons w ws ih =>
    cases ws with
    | nil =>
      rw [toList_intercalate_singleton] at h
      exact .inr ⟨w, List.mem_cons_self, h⟩
    | cons w' ws =>
      rw [toList_intercalate_cons_cons, List.mem_append, List.mem_cons] at h
      obtain h | rfl | h := h
      · exact .inr ⟨w, List.mem_cons_self, h⟩
      · exact .inl rfl
      · exact (ih h).imp_right fun ⟨v, hv, hc⟩ => ⟨v, List.mem_cons_of_mem _ hv, hc⟩

/-- Joined words do not begin with white space. -/
theorem isBlank_head?_intercalate {ws : List String} (h : ∀ w ∈ ws, IsWord w) :
    ∀ c ∈ (" ".intercalate ws).toList.head?, isBlank c = false := by
  intro c hc
  cases ws with
  | nil => cases hc
  | cons w ws =>
    have hw := h w List.mem_cons_self
    refine hw.2 c (List.mem_of_mem_head? ?_)
    cases ws with
    | nil => rwa [toList_intercalate_singleton] at hc
    | cons w' ws =>
      rwa [toList_intercalate_cons_cons, List.head?_append_of_ne_nil _ hw.toList_ne_nil] at hc

/-- Joined words do not end in white space. -/
theorem isBlank_getLast?_intercalate {ws : List String} (h : ∀ w ∈ ws, IsWord w) :
    ∀ c ∈ (" ".intercalate ws).toList.getLast?, isBlank c = false := by
  induction ws with
  | nil => exact fun c hc => nomatch hc
  | cons w ws ih =>
    obtain ⟨hw, hws⟩ := List.forall_mem_cons.1 h
    cases ws with
    | nil =>
      rw [toList_intercalate_singleton]
      exact fun c hc => hw.2 c (List.mem_of_mem_getLast? hc)
    | cons w' ws =>
      have hne : (" ".intercalate (w' :: ws)).toList ≠ [] := by
        intro hnil
        have hnone := words_intercalate hws
        rw [words, hnil] at hnone
        cases hnone
      rw [toList_intercalate_cons_cons, List.append_cons, List.getLast?_append_of_ne_nil _ hne]
      exact ih hws

/-! ## Lines of two words -/

/-- A line of two words, without the white space around them. -/
theorem exists_trimChars {n : List Char} (h : wordsOf cs = [w, n]) :
    ∃ c gap, trimChars cs = w ++ (c :: gap) ++ n ∧ isBlank c = true ∧
      (∀ c ∈ gap, isBlank c = true) ∧ w ≠ [] ∧ n ≠ [] ∧ (∀ c ∈ w, isBlank c = false) ∧
      ∀ c ∈ n, isBlank c = false := by
  obtain ⟨a, rest, rfl, ha, hne, hw, hrest, h⟩ := exists_of_wordsOf_cons h
  obtain ⟨gap, b, rfl, hgap, hne', hn, -, h⟩ := exists_of_wordsOf_cons h
  have hb := isBlank_of_wordsOf_eq_nil h
  have hhead : ∀ c ∈ (w ++ gap ++ n).head?, isBlank c = false := by
    rw [List.append_assoc, List.head?_append_of_ne_nil _ hne]
    exact fun c hc => hw c (List.mem_of_mem_head? hc)
  have hlast : ∀ c ∈ (w ++ gap ++ n).getLast?, isBlank c = false := by
    rw [List.getLast?_append_of_ne_nil _ hne']
    exact fun c hc => hn c (List.mem_of_mem_getLast? hc)
  have htrim := trimChars_append ha hb (List.append_ne_nil_of_right_ne_nil _ hne') hhead hlast
  cases gap with
  | nil =>
    obtain ⟨c, n, rfl⟩ := List.exists_cons_of_ne_nil hne'
    exact absurd (hrest c rfl) (by simp [hn c List.mem_cons_self])
  | cons c gap =>
    obtain ⟨hc, hgap⟩ := List.forall_mem_cons.1 hgap
    refine ⟨c, gap, ?_, hc, hgap, hne, hne', hw, hn⟩
    rw [← htrim]
    simp only [List.append_assoc]

/-- White space in front stays as it is when a line is lowered. -/
theorem lowerFrom_blank_append (ha : ∀ c ∈ a, isBlank c = true) (cs : List Char) :
    lowerFrom false (a ++ cs) = a ++ lowerFrom false cs := by
  induction a with
  | nil => rfl
  | cons c a ih =>
    rw [List.cons_append, lowerFrom_cons_blank (ha c List.mem_cons_self),
      ih fun c hc => ha c (List.mem_cons_of_mem _ hc), List.cons_append]

/-- The words of a line are lowered one by one. -/
theorem lowercase_line {word name : String} {c : Char} {gap : List Char} (hc : isBlank c = true)
    (hgap : ∀ c ∈ gap, isBlank c = true) :
    lowercase (.ofList (word.toList ++ (c :: gap) ++ name.toList)) =
      .ofList ((lowercase word).toList ++ (c :: gap) ++ (lowercase name).toList) := by
  simp only [lowercase_eq, String.toList_ofList, List.append_assoc, List.cons_append,
    lowerFrom_append_blank hc, lowerFrom_blank_append hgap]

/-- The first word of such a line, and what follows it. -/
theorem firstWord_line {word name : String} {c : Char} {gap : List Char} (hc : isBlank c = true)
    (hw : ∀ c ∈ word.toList, isBlank c = false) (hne : word.toList ≠ []) :
    firstWord (.ofList (word.toList ++ (c :: gap) ++ name.toList)) = word := by
  have hgap : ∀ d ∈ (c :: gap ++ name.toList).head?, isBlank d = true := by simp [hc]
  have hparts := wordsOf_parts (a := []) (by simp) hw hgap hne
  rw [List.nil_append, ← List.append_assoc] at hparts
  rw [firstWord, words, String.toList_ofList, hparts, List.map_cons, List.headD_cons,
    String.ofList_toList]

/-- What follows the first word of a line of two is the second one. -/
theorem afterFirstWord_line {word name : String} {c : Char} {gap : List Char}
    (hc : isBlank c = true) (hgap : ∀ c ∈ gap, isBlank c = true)
    (hw : ∀ c ∈ word.toList, isBlank c = false) (hne : word.toList ≠ [])
    (hn : ∀ c ∈ name.toList, isBlank c = false) (hne' : name.toList ≠ []) :
    afterFirstWord (.ofList (word.toList ++ (c :: gap) ++ name.toList)) = name := by
  have hhead : ∀ d ∈ (word.toList ++ (c :: gap) ++ name.toList).head?, isBlank d = false := by
    rw [List.append_assoc, List.head?_append_of_ne_nil _ hne]
    exact fun d hd => hw d (List.mem_of_mem_head? hd)
  have hdrop : (word.toList ++ (c :: gap) ++ name.toList).dropWhile (!isBlank ·) =
      c :: gap ++ name.toList := by
    rw [List.append_assoc, List.dropWhile_append_of_pos (by simpa using hw), List.cons_append,
      List.dropWhile_cons_of_neg (by simp [hc])]
  have htrim := trimChars_append (b := []) (List.forall_mem_cons.2 ⟨hc, hgap⟩) (by simp) hne'
    (fun d hd => hn d (List.mem_of_mem_head? hd)) fun d hd => hn d (List.mem_of_mem_getLast? hd)
  rw [List.append_nil] at htrim
  rw [afterFirstWord, String.toList_ofList, trimStart_of_head? hhead, hdrop, htrim,
    String.ofList_toList]

end Text

namespace Document

/-- The normal form of a line of two words is two words, each in lower case. -/
theorem normalLine_of_words {line word name : String}
    (h : Text.words (Text.cutComment line) = [word, name]) :
    Text.firstWord (normalLine true line) = Text.lowercase word ∧
      Text.afterFirstWord (normalLine true line) = Text.lowercase name ∧
      Text.lowercase word ≠ "" ∧ Text.lowercase name ≠ "" := by
  have hwords : Text.wordsOf (Text.cutComment line).toList = [word.toList, name.toList] := by
    have hid : String.toList ∘ String.ofList = id := funext fun _ => String.toList_ofList
    have hmap := congrArg (List.map String.toList) h
    rwa [Text.words, List.map_map, hid, List.map_id] at hmap
  obtain ⟨c, gap, htrim, hc, hgap, hne, hne', hw, hn⟩ := Text.exists_trimChars hwords
  have hline : normalLine true line = .ofList
      ((Text.lowercase word).toList ++ (c :: gap) ++ (Text.lowercase name).toList) := by
    rw [normalLine, if_pos rfl, Text.trim, htrim, Text.lowercase_line hc hgap]
  have hlow : ∀ s : String, (Text.lowercase s).toList = Text.lowerFrom false s.toList := fun s => by
    rw [Text.lowercase_eq, String.toList_ofList]
  have hw := hlow word ▸ Text.isBlank_lowerFrom hw false
  have hn := hlow name ▸ Text.isBlank_lowerFrom hn false
  have hne := hlow word ▸ Text.lowerFrom_ne_nil hne false
  have hne' := hlow name ▸ Text.lowerFrom_ne_nil hne' false
  refine ⟨?_, ?_, fun heq => hne (by rw [heq]; rfl), fun heq => hne' (by rw [heq]; rfl)⟩
  · rw [hline, Text.firstWord_line hc hw hne]
  · rw [hline, Text.afterFirstWord_line hc hgap hw hne hn hne']

end Document

end HouseRules
