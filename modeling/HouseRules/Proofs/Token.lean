import HouseRules.Proofs.Scope
import HouseRules.Proofs.Text.Numeral

/-!
# Parameters are read as they are written

Every parameter whose pile is declared and whose phase exists (`Token.Closed`) is one token of a
line in its written form (`Token.isToken_write`), and reading that gives the parameter back
(`Token.read_write`). The forms are tried one after the other, so each lemma here says why those
before the right one do not apply: only texts start with a quote, only numbers with a digit or a
sign, open parameters have no dot, and the word before the first dot is that of the form, since no
form has a dot in it.
-/

namespace HouseRules

/-! ## Taking apart at a character -/

namespace Text

/-- What stands in front of a character that does not occur there, and what stands behind it. -/
theorem splitOnce_eq {c : Char} {whole before after : String} (hc : c ∉ before.toList)
    (h : whole.toList = before.toList ++ c :: after.toList) :
    splitOnce c whole = some (before, after) := by
  have hfront : ∀ d ∈ before.toList, (d != c) = true := by
    intro d hd
    rw [bne_iff_ne]
    rintro rfl
    exact hc hd
  have hdrop : whole.toList.dropWhile (· != c) = c :: after.toList := by
    rw [h, List.dropWhile_append_of_pos hfront]
    exact List.dropWhile_cons_of_neg (by simp)
  have htake : whole.toList.takeWhile (· != c) = before.toList := by
    rw [h, List.takeWhile_append_of_pos hfront]
    simp
  rw [splitOnce, hdrop, htake]
  simp only [String.ofList_toList]

/-- A text is not cut at a character that it does not have. -/
theorem splitOnce_eq_none {c : Char} {s : String} (h : c ∉ s.toList) : splitOnce c s = none := by
  have hall : s.toList.dropWhile (· != c) = [] := by
    rw [List.dropWhile_eq_nil_iff]
    intro d hd
    rw [bne_iff_ne]
    rintro rfl
    exact h hd
  rw [splitOnce, hall]

end Text

/-- No kind is named by a word with a dot. -/
theorem Kind.ofWord?_eq_none {word : String} (h : '.' ∈ word.toList) :
    Kind.ofWord? word = none := by
  rw [Kind.ofWord?, List.find?_eq_none]
  intro kind _ heq
  rw [← beq_iff_eq.1 heq] at h
  cases kind <;> revert h <;> decide

/-- The keyword of a kind names this kind. -/
theorem Kind.ofWord?_keyword (k : Kind) : Kind.ofWord? k.keyword = some k := by
  cases k <;> rfl

/-- The keyword of a kind is one token. -/
theorem Kind.isToken_keyword (k : Kind) : Text.IsToken k.keyword := by
  cases k <;> exact Text.IsPlain.isToken (by decide) (by decide)

/-- The word for a player has neither white space nor quotes. -/
theorem PlayerRef.isPlain_word (w : PlayerRef) : Text.IsPlain w.word := by
  cases w <;> decide

/-- The word for an owner has neither white space nor quotes. -/
theorem OwnerRef.isPlain_word (o : OwnerRef) : Text.IsPlain o.word := by
  cases o <;> decide

namespace Token

variable {s : Scope}

/-- A number or a text is one that can be written: the number of at most 64 bits, the text without
quotes. -/
def Literal : Token → Prop
  | .integer n => Int64.minValue.toInt ≤ n ∧ n ≤ Int64.maxValue.toInt
  | .text content => '"' ∉ content.toList
  | _ => True

/-- A parameter can be written in scope. -/
structure Writable (s : Scope) (t : Token) : Prop where
  closed : t.Closed s.layout s.phases.length
  literal : t.Literal

/-! ## Tokens with a dot -/

/-- A word starts with a character that starts no number and no text. -/
def StartsWithLetter (word : String) : Prop := ∃ c, word.toList.head? = some c ∧
  c.isDigit = false ∧ c ≠ '+' ∧ c ≠ '-' ∧ c ≠ '"'

/-- The forms of tokens with a dot, by the word before the dot. -/
def forms : List String := ["player", "pile", "piles", "top", "bottom", "cards", "phase"]

/-- A word that starts with a letter is no text. -/
theorem StartsWithLetter.unquote? {word : String} (h : StartsWithLetter word) :
    Text.unquote? word = none := by
  obtain ⟨c, hhead, -, -, -, hquote⟩ := h
  refine Text.unquote?_eq_none fun d hd => ?_
  rw [hhead] at hd
  cases hd
  exact hquote

/-- Nor is it a number. -/
theorem StartsWithLetter.integer? {word : String} (h : StartsWithLetter word) :
    Text.integer? word = none := by
  obtain ⟨c, hhead, hdigit, hplus, hminus, -⟩ := h
  exact Text.integer?_eq_none hhead hdigit hplus hminus

/-- The words before a dot start with a letter. -/
theorem startsWithLetter_of_mem_forms {form : String} (h : form ∈ forms) :
    StartsWithLetter form := by
  fin_cases h <;> exact ⟨_, rfl, rfl, by decide, by decide, by decide⟩

/-- The words before a dot have neither white space nor quotes. -/
theorem isPlain_of_mem_forms {form : String} (h : form ∈ forms) : Text.IsPlain form := by
  fin_cases h <;> decide

/-- The words before a dot have no dot. -/
theorem dot_not_mem_of_mem_forms {form : String} (h : form ∈ forms) : '.' ∉ form.toList := by
  fin_cases h <;> decide

/-- A token with a dot is read by what stands before the first dot. -/
theorem read_dotted {form : String} (hform : form ∈ forms) (component rest : String) :
    read s component (form ++ "." ++ rest) =
      readDotted s component (form ++ "." ++ rest) form rest := by
  have hlist : (form ++ "." ++ rest).toList = form.toList ++ '.' :: rest.toList := by simp
  have hstart : StartsWithLetter (form ++ "." ++ rest) := by
    obtain ⟨c, hhead, hc⟩ := startsWithLetter_of_mem_forms hform
    refine ⟨c, ?_, hc⟩
    rw [hlist, List.head?_append, hhead]
    rfl
  have hdot : '.' ∈ (form ++ "." ++ rest).toList := by
    rw [hlist]
    exact List.mem_append_right _ List.mem_cons_self
  simp only [read, hstart.unquote?, hstart.integer?, Kind.ofWord?_eq_none hdot,
    Text.splitOnce_eq (dot_not_mem_of_mem_forms hform) hlist]

/-! ## Reading what is written -/

/-- The selector of a declared pile is read back from its name and owner. -/
theorem readSelector_written (hnames : s.layout.Named) {selector : PileSelector}
    (h : s.layout.Declares selector.slot) (component token : String) :
    readSelector s component token
      (s.layout.nameOf selector.slot ++ "@" ++ selector.owner.word) = .ok selector := by
  obtain ⟨d, hd, hname, hslot⟩ := hnames.slot?_nameOf h
  have hsplit : Text.splitOnce '@' (s.layout.nameOf selector.slot ++ "@" ++ selector.owner.word) =
      some (d.name, selector.owner.word) := by
    rw [hname]
    exact Text.splitOnce_eq (hnames.isName d hd).2.2 (by simp)
  rw [readSelector, hsplit]
  simp only [OwnerRef.ofWord?_word, Scope.slot, bind_ok, orFail_eq_ok, pure_ok]
  exact ⟨selector.owner, rfl, _, rfl, selector.slot, hslot, rfl⟩

/-- So is a declaration from its name alone. -/
theorem readSelector_name (hnames : s.layout.Named) {slot : Slot} (h : s.layout.Declares slot)
    (component token : String) :
    readSelector s component token (s.layout.nameOf slot) = .ok ⟨slot, .current⟩ := by
  obtain ⟨d, hd, hname, hslot⟩ := hnames.slot?_nameOf h
  rw [readSelector, hname, Text.splitOnce_eq_none (hnames.isName d hd).2.2]
  simp only [Scope.slot, bind_ok, orFail_eq_ok, pure_ok]
  exact ⟨_, rfl, slot, hslot, rfl⟩

/-- A selector is written as its form, the name of the pile and the owner. -/
theorem writeSelector_eq {selector : PileSelector} {form : String} :
    writeSelector s form selector =
      form ++ "." ++ (s.layout.nameOf selector.slot ++ "@" ++ selector.owner.word) := by
  simp only [writeSelector, String.append_assoc]

/-- An integer is written as its numeral. -/
theorem write_integer (n : Int) : write s (.integer n) = n.repr := by
  show toString n = n.repr
  rfl

/-- Reading a written parameter gives the parameter back. -/
theorem read_write (hnames : s.layout.Named) (hscope : s.Declared) {t : Token} (h : t.Writable s)
    (component : String) : read s component (t.write s) = .ok t := by
  obtain ⟨hclosed, hliteral⟩ := h
  cases t with
  | placeholder kind =>
    have hstart : StartsWithLetter kind.keyword := by
      cases kind <;> exact ⟨_, rfl, rfl, by decide, by decide, by decide⟩
    simp only [write, read, hstart.unquote?, hstart.integer?, Kind.ofWord?_keyword]
  | player who =>
    have hform : "player" ∈ forms := by decide
    refine (read_dotted hform component _).trans ?_
    simp only [readDotted, PlayerRef.ofWord?_word]
    rfl
  | pile selector | top selector | bottom selector | contents selector =>
    rw [write, writeSelector_eq, read_dotted (by decide)]
    simp only [readDotted, readSelector_written hnames hclosed]
    rfl
  | piles slot =>
    obtain ⟨d, hd, hname, -⟩ := hnames.slot?_nameOf hclosed
    have hat : (s.layout.nameOf slot).toList.contains '@' = false := by
      rw [hname, Bool.eq_false_iff, ne_eq, List.contains_iff_mem]
      exact (hnames.isName d hd).2.2
    have hform : "piles" ∈ forms := by decide
    refine (read_dotted hform component _).trans ?_
    simp only [readDotted, hat, readSelector_name hnames hclosed]
    rfl
  | phase id =>
    have hform : "phase" ∈ forms := by decide
    refine (read_dotted hform component _).trans ?_
    simp only [readDotted, Scope.phase_phaseName hscope.phases hclosed]
    rfl
  | integer n =>
    have hunquote : Text.unquote? n.repr = none :=
      Text.unquote?_eq_none fun c hc => (Text.isPlain_repr n c (List.mem_of_mem_head? hc)).2
    rw [write_integer, read, hunquote, Text.integer?_repr hliteral.1 hliteral.2]
  | text content =>
    rw [write, read, Text.unquote?_quoted]

/-- A written parameter is one token of a line. -/
theorem isToken_write (hnames : s.layout.Named) (hscope : s.Declared) (hquotes : s.Unquoted)
    {t : Token} (h : t.Writable s) : Text.IsToken (t.write s) := by
  obtain ⟨hclosed, hliteral⟩ := h
  -- A token with a dot is plain where what follows the dot is, and not empty.
  have hdotted : ∀ form ∈ forms, ∀ rest : String, Text.IsPlain rest →
      Text.IsToken (form ++ "." ++ rest) := by
    intro form hform rest hrest
    have hplain := ((isPlain_of_mem_forms hform).append (t := ".") (by decide)).append hrest
    refine hplain.isToken fun hempty => ?_
    simpa using congrArg String.toList hempty
  have hselector : ∀ form ∈ forms, ∀ selector : PileSelector,
      s.layout.Declares selector.slot → Text.IsToken (writeSelector s form selector) := by
    intro form hform selector hslot
    have hname := (Scope.isPlain_nameOf hnames hquotes hslot).append (t := "@") (by decide)
    rw [writeSelector_eq]
    exact hdotted form hform _ (hname.append selector.owner.isPlain_word)
  cases t with
  | placeholder kind => exact kind.isToken_keyword
  | player who => exact hdotted "player" (by decide) _ who.isPlain_word
  | pile selector => exact hselector "pile" (by decide) selector hclosed
  | top selector => exact hselector "top" (by decide) selector hclosed
  | bottom selector => exact hselector "bottom" (by decide) selector hclosed
  | contents selector => exact hselector "cards" (by decide) selector hclosed
  | piles slot =>
    exact hdotted "piles" (by decide) _ (Scope.isPlain_nameOf hnames hquotes hclosed)
  | phase id =>
    exact hdotted "phase" (by decide) _ (Scope.isPlain_phaseName hscope hquotes hclosed)
  | integer n =>
    rw [write_integer]
    refine (Text.isPlain_repr n).isToken fun hempty => ?_
    have hnil := congrArg String.toList hempty
    rw [Text.toList_repr] at hnil
    split at hnil
    · exact Nat.toDigits_ne_nil hnil
    · cases hnil
  | text content => exact Text.isToken_quoted hliteral

end Token

end HouseRules
