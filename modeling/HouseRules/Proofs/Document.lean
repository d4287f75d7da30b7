import HouseRules.Document
import HouseRules.Proofs.Except

/-!
# Reading back a text of lines

A text made of lines without line feeds falls into these lines again (`Text.lines_intercalate`). A
line of ASCII characters that has no comment and no white space at its ends is its own normal form
up to case (`Document.normalLine_ofList`), so a text of such lines reads as these lines, in lower
case where the document ignores case (`Document.normalLines_intercalate`).

What has to follow a keyword is what follows it, if that is anything (`Document.requireParams_ok`).
-/

namespace HouseRules

namespace Text

variable {cut : Char → Bool} {cs : List Char}

/-- The first piece of a text reaches to the first character that cuts. -/
theorem exists_pieces (cut : Char → Bool) (cs : List Char) :
    ∃ rest, pieces cut cs = cs.takeWhile (!cut ·) :: rest := by
  induction cs with
  | nil => exact ⟨[], rfl⟩
  | cons c cs ih =>
    obtain ⟨rest, ih⟩ := ih
    cases hc : cut c with
    | true => exact ⟨_, by rw [pieces_cons_of_cut hc, List.takeWhile_cons, hc]; rfl⟩
    | false => exact ⟨rest, by rw [pieces_cons_of_not_cut hc, ih, List.takeWhile_cons, hc]; rfl⟩

/-- A character that cuts separates the pieces before it from those behind it. -/
theorem pieces_append {sep : Char} (hsep : cut sep = true) (cs rest : List Char) :
    pieces cut (cs ++ sep :: rest) = pieces cut cs ++ pieces cut rest := by
  induction cs with
  | nil => exact pieces_cons_of_cut hsep rest
  | cons c cs ih =>
    rw [List.cons_append]
    cases hc : cut c with
    | true => rw [pieces_cons_of_cut hc, pieces_cons_of_cut hc, ih, List.cons_append]
    | false =>
      obtain ⟨more, hmore⟩ := exists_pieces cut cs
      rw [pieces_cons_of_not_cut hc, pieces_cons_of_not_cut hc, ih, hmore]
      rfl

/-- Where nothing cuts there is one piece. -/
theorem pieces_of_forall (h : ∀ c ∈ cs, cut c = false) : pieces cut cs = [cs] := by
  induction cs with
  | nil => rfl
  | cons c cs ih =>
    rw [pieces_cons_of_not_cut (h c List.mem_cons_self),
      ih fun c hc => h c (List.mem_cons_of_mem _ hc)]
    rfl

/-- The pieces hold no character that cuts. -/
theorem not_cut_of_mem_pieces {piece : List Char} (h : piece ∈ pieces cut cs) :
    ∀ c ∈ piece, cut c = false := by
  induction cs generalizing piece with
  | nil =>
    rw [pieces_nil, List.mem_singleton] at h
    simp [h]
  | cons c cs ih =>
    cases hc : cut c with
    | true =>
      rw [pieces_cons_of_cut hc, List.mem_cons] at h
      rcases h with rfl | h
      · simp
      · exact ih h
    | false =>
      obtain ⟨rest, hrest⟩ := exists_pieces cut cs
      rw [pieces_cons_of_not_cut hc, hrest, attach, List.mem_cons] at h
      rcases h with rfl | h
      · exact List.forall_mem_cons.2 ⟨hc, ih (hrest ▸ List.mem_cons_self)⟩
      · exact ih (hrest ▸ List.mem_cons_of_mem _ h)

/-- Cutting undoes joining. -/
theorem pieces_intercalate {css : List (List Char)} (hne : css ≠ [])
    (h : ∀ cs ∈ css, ∀ c ∈ cs, cut c = false) {sep : Char} (hsep : cut sep = true) :
    pieces cut ([sep].intercalate css) = css := by
  induction css with
  | nil => exact absurd rfl hne
  | cons cs css ih =>
    have hcs := h cs List.mem_cons_self
    cases css with
    | nil => rw [List.intercalate_singleton, pieces_of_forall hcs]
    | cons cs' css =>
      rw [List.intercalate_cons_cons, List.append_assoc, List.singleton_append,
        pieces_append hsep, pieces_of_forall hcs, List.singleton_append,
        ih (List.cons_ne_nil _ _) fun cs hcs => h cs (List.mem_cons_of_mem _ hcs)]

/-- The lines of joined lines are these lines. -/
theorem lines_intercalate {ls : List String} (hne : ls ≠ [])
    (h : ∀ l ∈ ls, '\n' ∉ l.toList) : lines ("\n".intercalate ls) = ls := by
  have hcut : ∀ cs ∈ ls.map String.toList, ∀ c ∈ cs, (c == '\n') = false := by
    intro cs hcs c hc
    obtain ⟨l, hl, rfl⟩ := List.mem_map.1 hcs
    exact beq_false_of_ne fun heq => h l hl (heq ▸ hc)
  have hsep : "\n".toList = ['\n'] := rfl
  rw [lines, String.toList_intercalate, hsep,
    pieces_intercalate (by simpa using hne) hcut (by rfl), List.map_map]
  exact (List.map_congr_left fun l _ => String.ofList_toList).trans (List.map_id ls)

/-- Text without a number sign has no comment. -/
theorem cutCommentFrom_of_forall (h : ∀ c ∈ cs, c ≠ '#') (quoted : Bool) :
    cutCommentFrom quoted cs = cs := by
  induction cs generalizing quoted with
  | nil => rfl
  | cons c cs ih =>
    have hc : (c == '#') = false := beq_false_of_ne (h c List.mem_cons_self)
    have ih := ih fun c hc => h c (List.mem_cons_of_mem _ hc)
    simp only [cutCommentFrom, hc, ih]
    split <;> rfl

/-- Characters that do not begin with a blank lose nothing at their start. -/
theorem trimStart_of_head? (h : ∀ c ∈ cs.head?, isBlank c = false) : trimStart cs = cs := by
  cases cs with
  | nil => rfl
  | cons c cs => exact List.dropWhile_cons_of_neg (by simp [h c rfl])

/-- Text without white space at its ends stays as it is. -/
theorem trimChars_of_ends (hhead : ∀ c ∈ cs.head?, isBlank c = false)
    (hlast : ∀ c ∈ cs.getLast?, isBlank c = false) : trimChars cs = cs := by
  have hreverse : trimStart cs.reverse = cs.reverse :=
    trimStart_of_head? fun c hc => hlast c (by rwa [List.head?_reverse] at hc)
  rw [trimChars, trimStart_of_head? hhead, hreverse, List.reverse_reverse]

end Text

namespace Document

/-- The characters of a line in normal form but for its case: ASCII without line feed and number
sign, and no white space at either end. -/
def isPlain (cs : List Char) : Bool :=
  cs.all (fun c => c.toNat < 0x80 && c != '\n' && c != '#') && !cs.isEmpty &&
    cs.head?.all (!Text.isBlank ·) && cs.getLast?.all (!Text.isBlank ·)

/-- The characters of a line in the case that a document keeps. -/
def caseOf (ignoreCase : Bool) (cs : List Char) : List Char :=
  if ignoreCase then cs.map Char.toLower else cs

variable {cs : List Char}

/-- A plain line has no comment to cut off and no white space to trim. -/
theorem trim_cutComment (h : isPlain cs = true) :
    Text.trim (Text.cutComment (.ofList cs)) = .ofList cs := by
  simp only [isPlain, Bool.and_eq_true, List.all_eq_true, decide_eq_true_eq, bne_iff_ne, ne_eq,
    Option.all_eq_true, Bool.not_eq_true'] at h
  obtain ⟨⟨⟨hall, -⟩, hhead⟩, hlast⟩ := h
  simp only [Text.trim, Text.cutComment, String.toList_ofList]
  rw [Text.cutCommentFrom_of_forall fun c hc => (hall c hc).2, Text.trimChars_of_ends hhead hlast]

/-- A plain line is normal up to its case. -/
theorem normalLine_ofList (h : isPlain cs = true) (ignoreCase : Bool) :
    normalLine ignoreCase (.ofList cs) = .ofList (caseOf ignoreCase cs) := by
  rw [normalLine, trim_cutComment h, caseOf]
  cases ignoreCase with
  | false => rfl
  | true =>
    have hascii : (cs.all (·.toNat < 0x80)) = true := by
      simp only [isPlain, Bool.and_eq_true, List.all_eq_true] at h
      exact List.all_eq_true.2 fun c hc => (h.1.1.1 c hc).1.1
    rw [if_pos rfl, if_pos rfl, Text.lowercase, String.toList_ofList, if_pos hascii]

/-- A plain line and what it is read as. -/
def ReadsAs (ignoreCase : Bool) (l l' : String) : Prop :=
  ∃ cs, l = .ofList cs ∧ isPlain cs = true ∧ l' = .ofList (caseOf ignoreCase cs)

variable {ignoreCase : Bool} {l l' : String}

/-- A plain line is read as what is told of it. -/
theorem ReadsAs.normalLine_eq (h : ReadsAs ignoreCase l l') : normalLine ignoreCase l = l' := by
  obtain ⟨cs, rfl, hcs, rfl⟩ := h
  exact normalLine_ofList hcs ignoreCase

/-- A plain line has no line feed. -/
theorem ReadsAs.not_mem_toList (h : ReadsAs ignoreCase l l') : '\n' ∉ l.toList := by
  obtain ⟨cs, rfl, hcs, -⟩ := h
  intro hmem
  rw [String.toList_ofList] at hmem
  simp only [isPlain, Bool.and_eq_true, List.all_eq_true] at hcs
  exact absurd (hcs.1.1.1 _ hmem).1.2 (by decide)

/-- Something is left of a plain line. -/
theorem ReadsAs.trim_ne (h : ReadsAs ignoreCase l l') : Text.trim (Text.cutComment l) ≠ "" := by
  obtain ⟨cs, rfl, hcs, -⟩ := h
  rw [trim_cutComment hcs]
  intro hempty
  have hnil : cs = [] := by simpa using congrArg String.toList hempty
  rw [hnil] at hcs
  cases hcs

/-- A text of plain lines reads as these lines in the case that the document keeps. -/
theorem normalLines_intercalate {ls ls' : List String} (hne : ls ≠ [])
    (h : List.Forall₂ (ReadsAs ignoreCase) ls ls') :
    normalLines ignoreCase ("\n".intercalate ls) = ls' := by
  have hplain : ∀ l ∈ ls, ∃ l', ReadsAs ignoreCase l l' := fun l hl => by
    obtain ⟨l', -, h⟩ := exists_of_mem_forall₂ h.flip hl
    exact ⟨l', h⟩
  have hfeed : ∀ l ∈ ls, '\n' ∉ l.toList := fun l hl => (hplain l hl).choose_spec.not_mem_toList
  have hkept : ∀ l ∈ ls, (Text.trim (Text.cutComment l) != "") = true := fun l hl =>
    bne_iff_ne.2 (hplain l hl).choose_spec.trim_ne
  have hread : ls.map (normalLine ignoreCase) = ls'.map id :=
    forall₂_eq_iff.1 (h.imp fun _ _ h => h.normalLine_eq)
  rw [normalLines, Text.lines_intercalate hne hfeed, List.filter_eq_self.2 hkept, hread,
    List.map_id]

variable {d : Document} {keyword text : String} {index : Nat}

/-- A text is read as the document of its directives, if it has any. -/
theorem parse_ok {kind : DocumentKind} {name : String} : parse kind name text = .ok d ↔
    normalLines kind.ignoresCase text ≠ [] ∧
      d = ⟨kind, name, normalLines kind.ignoresCase text⟩ := by
  simp only [parse, List.isEmpty_iff]
  split
  next h => simp [h]
  next h => simp [h, eq_comm]

/-- The parameters of a line are given out unless they are missing. -/
theorem requireParamsAt_ok :
    d.requireParamsAt index keyword = .ok text ↔ d.paramsAt index = text ∧ text ≠ "" := by
  rw [requireParamsAt]
  split
  next hempty =>
    rw [beq_iff_eq] at hempty
    exact ⟨nofun, fun ⟨heq, hne⟩ => absurd (heq ▸ hempty) hne⟩
  next hne =>
    rw [Except.ok.injEq]
    exact ⟨fun heq => ⟨heq, by simpa [← heq] using hne⟩, And.left⟩

/-- The parameters of a keyword are given out if it has a line with some. -/
theorem requireParams_ok :
    d.requireParams keyword = .ok text ↔ d.params? keyword = some text ∧ text ≠ "" := by
  simp only [requireParams, require, requireFrom, bind_ok, orFail_eq_ok, requireParamsAt_ok,
    params?, find?, Option.map_eq_some_iff, ← and_assoc, exists_and_right]

/-! ## The lines of a keyword -/

/-- The lines that start with a keyword, in order. -/
def linesOf (d : Document) (keyword : String) : List String :=
  d.lines.filter fun line => Text.firstWord line == keyword

/-- The positions of a keyword are those of its lines, in order. -/
theorem forall₂_positions (d : Document) (keyword : String) :
    List.Forall₂ (fun i line => d.lines[i]? = some line) (d.positions keyword)
      (d.linesOf keyword) := by
  have hlines : d.linesOf keyword =
      (d.lines.zipIdx.filter fun x => Text.firstWord x.1 == keyword).map (·.1) := by
    conv_lhs => rw [linesOf, ← List.zipIdx_map_fst 0 d.lines]
    exact List.filter_map
  rw [hlines, positions, List.forall₂_map_left_iff, List.forall₂_map_right_iff]
  refine List.forall₂_same.2 fun x hx => ?_
  exact List.mem_zipIdx_iff_getElem?.1 (List.mem_of_mem_filter hx)

/-- A keyword takes what follows it on the first of its lines. -/
theorem params?_eq (d : Document) (keyword : String) :
    d.params? keyword = (d.linesOf keyword).head?.map Text.afterFirstWord := by
  have hfind : d.find? keyword = (d.positions keyword).head? := by
    rw [find?, findFrom?]
    cases d.positions keyword <;> simp
  have hlines := d.forall₂_positions keyword
  rw [params?, hfind]
  generalize d.positions keyword = indices, d.linesOf keyword = lines at hlines ⊢
  cases hlines with
  | nil => rfl
  | cons hline _ => rw [List.head?_cons, List.head?_cons, Option.map_some, Option.map_some,
      paramsAt, hline]

end Document

end HouseRules
