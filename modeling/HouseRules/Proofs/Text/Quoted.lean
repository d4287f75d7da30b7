import HouseRules.Proofs.Text.Words
import HouseRules.Text.Quoted

/-!
# Lines made of tokens

A token of a line is text that closes every quote it opens and holds white space within quotes only
(`Text.IsToken`): a word without quotes, or any text between two quotes. A line in which white space
stands between tokens (`Text.Spaced`), however much of it and of which kind, has exactly these
tokens (`Text.tokens_of_spaced`).
-/

namespace HouseRules.Text

variable {cs w : List Char} {c : Char}

/-! ## Tokens -/

/-- The text closes its quotes, where one more is open in front of it if `quoted`, and holds no
white space outside quotes. -/
def Closes : Bool → List Char → Prop
  | quoted, [] => quoted = false
  | quoted, c :: cs =>
    if c = '"' then Closes (!quoted) cs else (quoted = true ∨ isBlank c = false) ∧ Closes quoted cs

/-- A text is one token of a line. -/
def IsToken (s : String) : Prop := s ≠ "" ∧ Closes false s.toList

/-- A text is without white space and quotes. -/
def IsPlain (s : String) : Prop := ∀ c ∈ s.toList, isBlank c = false ∧ c ≠ '"'

/-- Whether a text is plain can be checked character by character. -/
instance (s : String) : Decidable (IsPlain s) :=
  List.decidableBAll (fun c => isBlank c = false ∧ c ≠ '"') s.toList

/-- Plain texts put together are plain. -/
theorem IsPlain.append {s t : String} (hs : IsPlain s) (ht : IsPlain t) : IsPlain (s ++ t) := by
  intro c hc
  rw [String.toList_append, List.mem_append] at hc
  exact hc.elim (hs c) (ht c)

/-- A plain text closes its quotes, for it has none. -/
theorem closes_of_plain (h : ∀ c ∈ cs, isBlank c = false ∧ c ≠ '"') : Closes false cs := by
  induction cs with
  | nil => rfl
  | cons c cs ih =>
    obtain ⟨⟨hblank, hquote⟩, hcs⟩ := List.forall_mem_cons.1 h
    rw [Closes, if_neg hquote]
    exact ⟨.inr hblank, ih hcs⟩

/-- A word without quotes is a token. -/
theorem IsPlain.isToken {s : String} (h : IsPlain s) (hne : s ≠ "") : IsToken s :=
  ⟨hne, closes_of_plain h⟩

/-- In quotes stands anything but a quote. -/
theorem closes_quoted (h : '"' ∉ cs) : Closes true (cs ++ ['"']) := by
  induction cs with
  | nil => rfl
  | cons c cs ih =>
    obtain ⟨hc, hcs⟩ := List.ne_and_not_mem_of_not_mem_cons h
    rw [List.cons_append, Closes, if_neg hc.symm]
    exact ⟨.inl rfl, ih hcs⟩

/-- Text in quotes is a token. -/
theorem isToken_quoted {content : String} (h : '"' ∉ content.toList) :
    IsToken ("\"" ++ content ++ "\"") := by
  constructor
  · intro hempty
    simpa using congrArg String.toList hempty
  · simp only [String.toList_append, List.append_assoc]
    exact closes_quoted h

/-- Text in quotes is read back without them. -/
theorem unquote?_quoted (content : String) : unquote? ("\"" ++ content ++ "\"") = some content := by
  have hlist : ("\"" ++ content ++ "\"").toList = '"' :: (content.toList ++ ['"']) := by
    simp
  rw [unquote?, hlist]
  simp

/-- Text that does not start with a quote is not read as text in quotes. -/
theorem unquote?_eq_none {s : String} (h : ∀ c ∈ s.toList.head?, c ≠ '"') : unquote? s = none := by
  unfold unquote?
  split
  next heq => exact absurd rfl (h '"' (by rw [heq]; rfl))
  next => rfl

/-! ## Lines -/

/-- A line is made of some words with white space between any two of them. White space may stand
around them as well. -/
inductive Spaced : List String → List Char → Prop
  | nil : Spaced [] []
  | blank {c : Char} {words : List String} {line : List Char} :
    isBlank c = true → Spaced words line → Spaced words (c :: line)
  | last (word : String) : Spaced [word] word.toList
  | word (word : String) {c : Char} {words : List String} {line : List Char} :
    isBlank c = true → Spaced words line → Spaced (word :: words) (word.toList ++ c :: line)

/-- The tokens of a list of characters. -/
def tokensOf (cs : List Char) : List (List Char) :=
  (quotedPieces false cs).filter fun piece => !piece.isEmpty

/-- Within a token no character ends a piece. -/
theorem quotedPieces_cons {quoted : Bool} (h : Closes quoted (c :: w)) :
    ∃ next, Closes next w ∧
      ∀ cs, quotedPieces quoted (c :: cs) = attach c (quotedPieces next cs) := by
  rw [Closes] at h
  split at h
  next hquote =>
    exact ⟨!quoted, h, fun cs => by rw [quotedPieces, if_pos (beq_iff_eq.2 hquote)]⟩
  next hquote =>
    have hopen : ¬ (isBlank c && !quoted) = true := by
      rcases h.1 with hquoted | hblank
      · simp [hquoted]
      · simp [hblank]
    exact ⟨quoted, h.2, fun cs => by
      rw [quotedPieces, if_neg (by rwa [beq_iff_eq]), if_neg hopen]⟩

/-- A text that closes its quotes is one piece. -/
theorem quotedPieces_closed {quoted : Bool} (h : Closes quoted w) :
    quotedPieces quoted w = [w] := by
  induction w generalizing quoted with
  | nil => rfl
  | cons c w ih =>
    obtain ⟨next, hw, hpieces⟩ := quotedPieces_cons h
    rw [hpieces, ih hw]
    rfl

/-- White space ends a piece in which no quote is open. -/
theorem quotedPieces_append {quoted : Bool} (h : Closes quoted w) (hc : isBlank c = true)
    (cs : List Char) : quotedPieces quoted (w ++ c :: cs) = w :: quotedPieces false cs := by
  induction w generalizing quoted with
  | nil =>
    have hne : c ≠ '"' := by
      rintro rfl
      cases hc
    cases (show quoted = false from h)
    rw [List.nil_append, quotedPieces, if_neg (by rwa [beq_iff_eq]), if_pos (by simp [hc])]
  | cons d w ih =>
    obtain ⟨next, hw, hpieces⟩ := quotedPieces_cons h
    rw [List.cons_append, hpieces, ih hw]
    rfl

/-- White space in front of a line is not seen. -/
theorem tokensOf_blank (hc : isBlank c = true) (cs : List Char) :
    tokensOf (c :: cs) = tokensOf cs := by
  have hclosed : Closes false [] := rfl
  have hpieces := quotedPieces_append hclosed hc cs
  rw [List.nil_append] at hpieces
  rw [tokensOf, hpieces]
  rfl

/-- A text that closes its quotes is one token. -/
theorem tokensOf_token (h : Closes false w) (hne : w ≠ []) : tokensOf w = [w] := by
  rw [tokensOf, quotedPieces_closed h]
  exact List.filter_cons_of_pos (by simpa using hne)

/-- Before white space a text that closes its quotes is the first token. -/
theorem tokensOf_append (h : Closes false w) (hne : w ≠ []) (hc : isBlank c = true)
    (cs : List Char) : tokensOf (w ++ c :: cs) = w :: tokensOf cs := by
  rw [tokensOf, quotedPieces_append h hc]
  exact List.filter_cons_of_pos (by simpa using hne)

/-- Tokens with white space between them are read as these tokens. -/
theorem tokensOf_spaced {words : List String} (h : Spaced words cs)
    (hwords : ∀ w ∈ words, IsToken w) : tokensOf cs = words.map String.toList := by
  have hne : ∀ {w : String}, IsToken w → w.toList ≠ [] := fun hw => by simpa using hw.1
  induction h with
  | nil => rfl
  | blank hc _ ih => exact (tokensOf_blank hc _).trans (ih hwords)
  | last w =>
    have hw := hwords w List.mem_cons_self
    exact tokensOf_token hw.2 (hne hw)
  | word w hc _ ih =>
    obtain ⟨hw, hrest⟩ := List.forall_mem_cons.1 hwords
    rw [tokensOf_append hw.2 (hne hw) hc, ih hrest, List.map_cons]

/-- The tokens of a line are the words it is made of. -/
theorem tokens_of_spaced {words : List String} {line : String} (h : Spaced words line.toList)
    (hwords : ∀ w ∈ words, IsToken w) : tokens line = words := by
  show (tokensOf line.toList).map String.ofList = words
  rw [tokensOf_spaced h hwords, List.map_map]
  exact (List.map_congr_left fun w _ => String.ofList_toList).trans (List.map_id words)

end HouseRules.Text
