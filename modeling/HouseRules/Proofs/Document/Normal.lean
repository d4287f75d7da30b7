import HouseRules.Proofs.Text.Comment
import HouseRules.Proofs.Text.Numeral

/-!
# The normal form of a document

A line in normal form (`Document.IsNormal`) is not empty, has no white space at its ends, no line
feed and no comment, and is in lower case where the document drops the case of letters. What
reading gives is in normal form (`Document.isNormal_normalLine`), and reading leaves it as it is
(`Document.IsNormal.normalLine_eq`), so a document is a fixed point of reading.

What reading does not see is listed as edits of the lines of a text (`Document.UnseenEdit`): a
comment behind a line, white space behind a line, a line of white space. Each of them keeps the
directives (`Document.UnseenEdit.directives_eq`), so any number of them, made or undone in any
order, gives the same document (`Document.parse_normal`).

Reference: `RuleDocument.parse` (specification 4.1, E2).
-/

namespace HouseRules

namespace Document

/-! ## Lines in normal form -/

/-- A line is as a document holds it. -/
structure IsNormal (ignoreCase : Bool) (line : String) : Prop where
  ne_empty : line ≠ ""
  head : ∀ c ∈ line.toList.head?, Text.isBlank c = false
  last : ∀ c ∈ line.toList.getLast?, Text.isBlank c = false
  feed : '\n' ∉ line.toList
  /-- Every number sign is within quotes: an odd number of quotes stands before it. -/
  signs : ∀ before after, line.toList = before ++ '#' :: after → Odd (before.count '"')
  lower : ignoreCase = true → Text.lowercase line = line

variable {ignoreCase : Bool} {line : String}

/-- A line without comment and outer white space. -/
def bare (line : String) : String := Text.trim (Text.cutComment line)

/-- A line without comment and outer white space, character by character. -/
theorem toList_bare (line : String) :
    (bare line).toList = Text.trimChars (Text.cutCommentFrom false line.toList) := by
  simp only [bare, Text.trim, Text.cutComment, String.toList_ofList]

/-- A line in normal form has no comment and no outer white space. -/
theorem IsNormal.bare_eq (h : IsNormal ignoreCase line) : bare line = line := by
  have hsigns : Text.SignsQuoted false line.toList := fun before after heq => by
    simpa using h.signs before after heq
  rw [← String.toList_inj, toList_bare, Text.cutCommentFrom_of_signsQuoted hsigns,
    Text.trimChars_of_ends h.head h.last]

/-- Reading leaves a line in normal form as it is. -/
theorem IsNormal.normalLine_eq (h : IsNormal ignoreCase line) :
    normalLine ignoreCase line = line := by
  have hbare : Text.trim (Text.cutComment line) = line := h.bare_eq
  simp only [normalLine, hbare]
  split
  next hlower => exact h.lower hlower
  next => rfl

/-- A line of the text without comment and outer white space is in normal form but for its case. -/
theorem isNormal_bare (hne : bare line ≠ "") (hfeed : '\n' ∉ line.toList) :
    IsNormal false (bare line) where
  ne_empty := hne
  head := by
    rw [toList_bare]
    exact Text.isBlank_head?_trimChars
  last := by
    rw [toList_bare]
    exact Text.isBlank_getLast?_trimChars
  feed := by
    intro hmem
    rw [toList_bare] at hmem
    have hcut := Text.trimChars_subset _ hmem
    exact hfeed ((Text.cutCommentFrom_prefix false line.toList).mem hcut)
  signs := by
    intro before after heq
    rw [toList_bare] at heq
    simpa using Text.signsQuoted_trimChars (Text.signsQuoted_cutCommentFrom false _) _ _ heq
  lower := nofun

/-- Lowering the case keeps the rest of the normal form. -/
theorem IsNormal.lowercase (h : IsNormal false line) (ignoreCase : Bool) :
    IsNormal ignoreCase (Text.lowercase line) := by
  have hlist : (Text.lowercase line).toList = Text.lowerFrom false line.toList := by
    rw [Text.lowercase_eq, String.toList_ofList]
  have hline : line.toList ≠ [] := fun hnil => h.ne_empty (String.toList_inj.1 hnil)
  refine ⟨fun hempty => ?_, ?_, ?_, fun hmem => ?_, fun before after heq => ?_, fun _ => ?_⟩
  · rw [hempty] at hlist
    exact Text.lowerFrom_ne_nil hline false hlist.symm
  · rw [hlist]
    exact Text.isBlank_head?_lowerFrom h.head false
  · rw [hlist]
    exact Text.isBlank_getLast?_lowerFrom h.last false
  · rw [hlist] at hmem
    exact h.feed (Text.mem_of_mem_lowerFrom (.inl (by decide)) hmem)
  · have hsigns : Text.SignsQuoted false line.toList := fun before after heq => by
      simpa using h.signs before after heq
    simpa using Text.signsQuoted_lowerFrom hsigns false before after (hlist ▸ heq)
  · exact Text.lowercase_lowercase line

/-- What a line is read as is in normal form. -/
theorem isNormal_normalLine (hne : bare line ≠ "") (hfeed : '\n' ∉ line.toList) :
    IsNormal ignoreCase (normalLine ignoreCase line) := by
  have hbare : IsNormal false (Text.trim (Text.cutComment line)) := isNormal_bare hne hfeed
  simp only [normalLine]
  cases ignoreCase with
  | false => simpa only [Bool.false_eq_true, if_false] using hbare
  | true => simpa only [if_true] using hbare.lowercase true

/-- A word that may stand in a line in normal form. -/
structure IsNormalWord (ignoreCase : Bool) (word : String) : Prop where
  isWord : Text.IsWord word
  sign : '#' ∉ word.toList
  lower : ignoreCase = true → ∀ c ∈ word.toList, Text.IsLower c

/-- A character of keywords and numerals: one of ASCII from the hyphen on, and no capital. -/
def isKeyChar (c : Char) : Bool :=
  0x2D ≤ c.toNat && c.toNat ≤ 0x7A && (c.toNat < 0x41 || 0x5A < c.toNat)

/-- A text is a keyword or a numeral, as far as its characters go. -/
def isKeyWord (word : String) : Bool := word != "" && word.toList.all isKeyChar

/-- A keyword or a numeral is a word in normal form, in either case. -/
theorem isNormalWord_of_isKeyWord {word : String} (h : isKeyWord word = true) :
    IsNormalWord ignoreCase word := by
  have hchars : ∀ c ∈ word.toList, 0x2D ≤ c.toNat ∧ c.toNat ≤ 0x7A ∧
      (c.toNat < 0x41 ∨ 0x5A < c.toNat) := by
    simpa [isKeyWord, isKeyChar, and_assoc] using (Bool.and_eq_true_iff.1 h).2
  refine ⟨⟨bne_iff_ne.1 (Bool.and_eq_true_iff.1 h).1, fun c hc => ?_⟩, fun hsign => ?_,
    fun _ c hc => ?_⟩
  · have hrange := hchars c hc
    simp only [Text.isBlank, Bool.or_eq_false_iff, Bool.and_eq_false_iff, decide_eq_false_iff_not,
      beq_eq_false_iff_ne]
    omega
  · exact absurd (hchars _ hsign).1 (by decide)
  · obtain ⟨-, hmost, hcapital⟩ := hchars c hc
    have hlower : Text.lowerChar c = c := by
      rw [Text.lowerChar, if_pos (by omega)]
      exact Char.toNat_inj.1 (by rw [Text.toNat_toLower, if_neg (by omega)])
    have hdot : c ≠ '\u0130' := by
      rintro rfl
      exact absurd hmost (by decide)
    exact hlower ▸ Text.isLower_lowerChar hdot

/-- A numeral is written in digits. -/
theorem isKeyWord_repr (n : Nat) : isKeyWord n.repr = true := by
  refine Bool.and_eq_true_iff.2 ⟨bne_iff_ne.2 (Text.isWord_repr n).1, List.all_eq_true.2 ?_⟩
  intro c hc
  have hdigit := Text.isDigit_of_mem_repr hc
  simp only [Char.isDigit, Bool.and_eq_true, decide_eq_true_eq, ge_iff_le,
    UInt32.le_iff_toNat_le] at hdigit
  have hleast : 48 ≤ c.toNat := hdigit.1
  have hmost : c.toNat ≤ 57 := hdigit.2
  simp only [isKeyChar, Bool.and_eq_true, Bool.or_eq_true, decide_eq_true_eq]
  omega

/-- Words without number signs in the case of the document, joined by spaces, are in normal form. -/
theorem isNormal_intercalate {ws : List String} (hne : ws ≠ [])
    (h : ∀ w ∈ ws, IsNormalWord ignoreCase w) : IsNormal ignoreCase (" ".intercalate ws) := by
  have hwords : ∀ w ∈ ws, Text.IsWord w := fun w hw => (h w hw).isWord
  have hmem : ∀ c ∈ (" ".intercalate ws).toList, c ≠ '\n' ∧ c ≠ '#' ∧
      (ignoreCase = true → Text.IsLower c) := by
    intro c hc
    obtain rfl | ⟨w, hw, hc⟩ := Text.mem_intercalate hc
    · exact ⟨by decide, by decide, fun _ => by decide⟩
    · refine ⟨?_, ?_, fun hlower => (h w hw).lower hlower c hc⟩
      · rintro rfl
        exact absurd ((hwords w hw).2 _ hc) (by decide)
      · rintro rfl
        exact (h w hw).sign hc
  refine ⟨fun hempty => ?_, Text.isBlank_head?_intercalate hwords,
    Text.isBlank_getLast?_intercalate hwords, fun hfeed => (hmem _ hfeed).1 rfl, ?_, ?_⟩
  · have hnone := Text.words_intercalate hwords
    rw [hempty] at hnone
    exact hne hnone.symm
  · intro before after heq
    exact absurd rfl (hmem '#' (heq ▸ by simp)).2.1
  · exact fun hlower => Text.lowercase_of_isLower fun c hc => (hmem c hc).2.2 hlower

/-! ## Documents -/

/-- The directives of a text that falls into these lines. -/
def directives (ignoreCase : Bool) (ls : List String) : List String :=
  (ls.filter fun line => bare line != "").map (normalLine ignoreCase)

/-- The directives of lines and further lines are those of both, in order. -/
theorem directives_append (ls ls' : List String) :
    directives ignoreCase (ls ++ ls') = directives ignoreCase ls ++ directives ignoreCase ls' := by
  simp only [directives, List.filter_append, List.map_append]

/-- A line has at most one directive, which is known from the line without its comment. -/
theorem directives_singleton (line : String) : directives ignoreCase [line] =
    if bare line = "" then [] else [normalLine ignoreCase line] := by
  by_cases h : bare line = "" <;> simp [directives, h]

/-- Lines that agree but for comments and outer white space have the same directive. -/
theorem directives_singleton_congr {line' : String} (h : bare line = bare line') :
    directives ignoreCase [line] = directives ignoreCase [line'] := by
  have hnormal : normalLine ignoreCase line = normalLine ignoreCase line' := by
    simp only [bare] at h
    simp only [normalLine, h]
  rw [directives_singleton, directives_singleton, h, hnormal]

/-- The lines of a document are the directives of its text. -/
theorem normalLines_eq_directives (text : String) :
    normalLines ignoreCase text = directives ignoreCase (Text.lines text) := by
  simp only [normalLines, directives, bare]

/-- Lines without line feeds that are joined into a text are read as their directives. -/
theorem normalLines_join {ls : List String} (hfeed : ∀ line ∈ ls, '\n' ∉ line.toList) :
    normalLines ignoreCase ("\n".intercalate ls) = directives ignoreCase ls := by
  by_cases hne : ls = []
  · subst hne
    cases ignoreCase <;> decide
  · rw [normalLines_eq_directives, Text.lines_intercalate hne hfeed]

/-- No line of a text has a line feed. -/
theorem not_mem_lines {text : String} (h : line ∈ Text.lines text) : '\n' ∉ line.toList := by
  obtain ⟨piece, hpiece, rfl⟩ := List.mem_map.1 h
  rw [String.toList_ofList]
  exact fun hmem => by simpa using Text.not_cut_of_mem_pieces hpiece _ hmem

/-- Every line of a document is in normal form. -/
theorem isNormal_of_mem_normalLines {text : String} (h : line ∈ normalLines ignoreCase text) :
    IsNormal ignoreCase line := by
  obtain ⟨raw, hraw, rfl⟩ := List.mem_map.1 h
  obtain ⟨hmem, hne⟩ := List.mem_filter.1 hraw
  exact isNormal_normalLine (bne_iff_ne.1 hne) (not_mem_lines hmem)

/-- Lines in normal form are their own directives. -/
theorem directives_of_isNormal {ls : List String} (h : ∀ line ∈ ls, IsNormal ignoreCase line) :
    directives ignoreCase ls = ls := by
  have hkept : ls.filter (fun line => bare line != "") = ls :=
    List.filter_eq_self.2 fun line hline => by
      rw [(h line hline).bare_eq]
      exact bne_iff_ne.2 (h line hline).ne_empty
  rw [directives, hkept]
  exact (List.map_congr_left fun line hline => (h line hline).normalLine_eq).trans (List.map_id ls)

/-! ## Edits that reading does not see -/

/-- One change to the lines of a text that touches no directive. A line of comment alone comes in as
a line of white space with a comment behind it; the carriage return before a line feed is white
space. -/
inductive UnseenEdit : List String → List String → Prop
  /-- A comment behind a line, where no quote is open. -/
  | comment (pre post : List String) (line text : String)
      (hopen : Even (line.toList.count '"')) (hfeed : '\n' ∉ text.toList) :
      UnseenEdit (pre ++ line :: post) (pre ++ (line ++ "#" ++ text) :: post)
  /-- White space behind a line. -/
  | padding (pre post : List String) (line gap : String)
      (hgap : ∀ c ∈ gap.toList, Text.isBlank c = true) (hfeed : '\n' ∉ gap.toList) :
      UnseenEdit (pre ++ line :: post) (pre ++ (line ++ gap) :: post)
  /-- A line of white space. -/
  | blankLine (pre post : List String) (line : String)
      (hblank : ∀ c ∈ line.toList, Text.isBlank c = true) (hfeed : '\n' ∉ line.toList) :
      UnseenEdit (pre ++ post) (pre ++ line :: post)

/-- A comment behind a line is not seen where no quote is open. -/
theorem bare_comment (hopen : Even (line.toList.count '"')) (text : String) :
    bare (line ++ "#" ++ text) = bare line := by
  have hlist : (line ++ "#" ++ text).toList = line.toList ++ '#' :: text.toList := by
    simp
  rw [← String.toList_inj, toList_bare, toList_bare, hlist,
    Text.cutCommentFrom_comment (by simpa using hopen)]

/-- White space behind a line is not seen. -/
theorem bare_padding {gap : String} (hgap : ∀ c ∈ gap.toList, Text.isBlank c = true)
    (line : String) : bare (line ++ gap) = bare line := by
  rw [← String.toList_inj, toList_bare, toList_bare, String.toList_append]
  obtain hread | hunread := Text.cutCommentFrom_append_blank hgap false line.toList
  · rw [hread, Text.trimChars_append_blank hgap]
  · rw [hunread]

/-- Nothing is seen of a line of white space. -/
theorem bare_blankLine (hblank : ∀ c ∈ line.toList, Text.isBlank c = true) : bare line = "" := by
  have hcut := (Text.cutCommentFrom_prefix false line.toList).subset
  rw [← String.toList_inj, toList_bare, String.toList_empty, Text.trimChars_eq_nil_iff]
  exact fun c hc => hblank c (hcut hc)

variable {ls ls' : List String}

/-- An edit that touches no directive keeps them all. -/
theorem UnseenEdit.directives_eq (h : UnseenEdit ls ls') (ignoreCase : Bool) :
    directives ignoreCase ls = directives ignoreCase ls' := by
  cases h with
  | comment pre post line text hopen _ =>
    rw [directives_append, directives_append, ← List.singleton_append, directives_append,
      ← directives_singleton_congr (bare_comment hopen _), ← directives_append,
      List.singleton_append]
  | padding pre post line gap hgap _ =>
    rw [directives_append, directives_append, ← List.singleton_append, directives_append,
      ← directives_singleton_congr (bare_padding hgap _), ← directives_append,
      List.singleton_append]
  | blankLine pre post line hblank _ =>
    have hnone : directives ignoreCase [line] = [] := by
      rw [directives_singleton, if_pos (bare_blankLine hblank)]
    rw [directives_append, directives_append, ← List.singleton_append, directives_append, hnone,
      List.nil_append]

/-- An edit brings no line feed into the lines and takes none out of them. -/
theorem UnseenEdit.feed_iff (h : UnseenEdit ls ls') :
    (∀ line ∈ ls, '\n' ∉ line.toList) ↔ ∀ line ∈ ls', '\n' ∉ line.toList := by
  have hsign : '\n' ∉ "#".toList := by decide
  cases h with
  | comment _ _ _ _ _ hfeed | padding _ _ _ _ _ hfeed | blankLine _ _ _ _ hfeed =>
    simp only [List.forall_mem_append, List.forall_mem_cons]
    simp only [String.toList_append, List.mem_append, hsign, hfeed, or_false, not_false_iff,
      true_and]

/-- Any number of unseen edits, made or undone, keep the directives. -/
theorem directives_eq_of_eqvGen (h : Relation.EqvGen UnseenEdit ls ls') (ignoreCase : Bool) :
    directives ignoreCase ls = directives ignoreCase ls' := by
  induction h with
  | rel _ _ h => exact h.directives_eq ignoreCase
  | refl _ => rfl
  | symm _ _ _ ih => exact ih.symm
  | trans _ _ _ _ _ ih₁ ih₂ => exact ih₁.trans ih₂

/-- Any number of unseen edits, made or undone, bring in no line feed and take none out. -/
theorem feed_iff_of_eqvGen (h : Relation.EqvGen UnseenEdit ls ls') :
    (∀ line ∈ ls, '\n' ∉ line.toList) ↔ ∀ line ∈ ls', '\n' ∉ line.toList := by
  induction h with
  | rel _ _ h => exact h.feed_iff
  | refl _ => rfl
  | symm _ _ _ ih => exact ih.symm
  | trans _ _ _ _ _ ih₁ ih₂ => exact ih₁.trans ih₂

/-- A text read after edits that touch no directive. -/
theorem normalLines_of_eqvGen {text : String} (h : Relation.EqvGen UnseenEdit (Text.lines text) ls)
    (ignoreCase : Bool) :
    normalLines ignoreCase ("\n".intercalate ls) = normalLines ignoreCase text := by
  have hfeed := (feed_iff_of_eqvGen h).1 fun _ => not_mem_lines
  rw [normalLines_join hfeed, normalLines_eq_directives, directives_eq_of_eqvGen h]

/-! ## Reading again -/

/-- Lines in normal form are read as they are. -/
theorem parse_of_isNormal {kind : DocumentKind} {name : String} (hne : ls ≠ [])
    (h : ∀ line ∈ ls, IsNormal kind.ignoresCase line) :
    parse kind name ("\n".intercalate ls) = .ok ⟨kind, name, ls⟩ := by
  have hread : normalLines kind.ignoresCase ("\n".intercalate ls) = ls := by
    rw [normalLines_join fun line hline => (h line hline).feed, directives_of_isNormal h]
  exact parse_ok.2 ⟨hread.symm ▸ hne, by rw [hread]⟩

/-- What is read is in normal form; read again it is the same; and no edit that touches no directive
changes it. -/
theorem parse_normal {kind : DocumentKind} {name text : String} {d : Document}
    (h : parse kind name text = .ok d) :
    (∀ line ∈ d.lines, IsNormal kind.ignoresCase line) ∧
      parse kind name ("\n".intercalate d.lines) = .ok d ∧
      ∀ ls, Relation.EqvGen UnseenEdit (Text.lines text) ls →
        parse kind name ("\n".intercalate ls) = .ok d := by
  obtain ⟨hne, rfl⟩ := parse_ok.1 h
  have hnormal : ∀ line ∈ normalLines kind.ignoresCase text, IsNormal kind.ignoresCase line :=
    fun _ => isNormal_of_mem_normalLines
  refine ⟨hnormal, parse_of_isNormal hne hnormal, fun ls hls => parse_ok.2 ?_⟩
  rw [normalLines_of_eqvGen hls]
  exact ⟨hne, rfl⟩

/-- A comment with a quote in it for another, a comment line for a blank line, a number sign within
quotes, and a sigma at the end of a word. -/
theorem remarks_parse_normal :
    (∀ line ∈ ["say \"card #1\"", "οδος"], IsNormal true line) ∧
      parse .rules "odd" "say \"card #1\"\nοδος" =
        .ok ⟨.rules, "odd", ["say \"card #1\"", "οδος"]⟩ ∧
      parse .rules "odd" "Say \"Card #1\" #\"\nΟΔΟΣ\n# end" =
        .ok ⟨.rules, "odd", ["say \"card #1\"", "οδος"]⟩ := by
  have hparse : parse .rules "odd" "Say \"Card #1\" # note\r\n\nΟΔΟΣ" =
      .ok ⟨.rules, "odd", ["say \"card #1\"", "οδος"]⟩ :=
    parse_ok.2 ⟨by decide +kernel, by decide +kernel⟩
  obtain ⟨hnormal, hagain, hedits⟩ := parse_normal hparse
  have hlines : Text.lines "Say \"Card #1\" # note\r\n\nΟΔΟΣ" =
      ["Say \"Card #1\" " ++ "#" ++ " note\r", "", "ΟΔΟΣ"] := by
    decide +kernel
  have hopen : Even ("Say \"Card #1\" ".toList.count '"') := by decide
  have hremark := UnseenEdit.comment [] ["", "ΟΔΟΣ"] _ " note\r" hopen (by decide)
  have hquote := UnseenEdit.comment [] ["", "ΟΔΟΣ"] _ "\"" hopen (by decide)
  have hgone := UnseenEdit.blankLine ["Say \"Card #1\" " ++ "#" ++ "\""] ["ΟΔΟΣ"] "" (by simp)
    (by simp)
  have hnew := UnseenEdit.blankLine ["Say \"Card #1\" " ++ "#" ++ "\"", "ΟΔΟΣ"] [] "" (by simp)
    (by simp)
  have hend := UnseenEdit.comment ["Say \"Card #1\" " ++ "#" ++ "\"", "ΟΔΟΣ"] [] "" " end"
    (by simp) (by decide)
  have htext : "\n".intercalate ["Say \"Card #1\" " ++ "#" ++ "\"", "ΟΔΟΣ", "" ++ "#" ++ " end"] =
      "Say \"Card #1\" #\"\nΟΔΟΣ\n# end" := by
    decide +kernel
  refine ⟨hnormal, hagain, htext ▸ hedits _ ?_⟩
  rw [hlines]
  exact (Relation.EqvGen.rel _ _ hremark).symm.trans _ _ _ <|
    (Relation.EqvGen.rel _ _ hquote).trans _ _ _ <|
    (Relation.EqvGen.rel _ _ hgone).symm.trans _ _ _ <|
    (Relation.EqvGen.rel _ _ hnew).trans _ _ _ (.rel _ _ hend)

end Document

end HouseRules
