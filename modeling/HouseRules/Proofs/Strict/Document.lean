import HouseRules.Proofs.Document
import HouseRules.Proofs.Strict.Basic
import HouseRules.Record

/-!
# Rule documents read strictly

What follows the first word of a line is found by looking for the word in the line and reading on
from behind it. The place is counted in bytes, of which a character takes up to four, so there is
something to read only where a character begins. Blocks of lines are cut out by their places.

Both are always there, whatever the line and whatever the keywords: the first word occurs in its
line and ends at a character (`Text.afterFirstWordStrict_eq`), and a block is cut out only after its
places have been compared with the number of lines (`Document.sliceStrict_eq`). So a document and
its records are read strictly without any condition on the text.
-/

namespace HouseRules

/-! ## What follows the first word of a line -/

namespace Text

/-- How many bytes some characters take up. -/
def byteSize : List Char → Nat
  | [] => 0
  | c :: cs => c.utf8Size + byteSize cs

/-- The byte at which a part of a text begins for the first time. -/
def findByte? (part : List Char) : List Char → Option Nat
  | [] => if part.isEmpty then some 0 else none
  | c :: cs =>
    if part.isPrefixOf (c :: cs) then some 0
    else (findByte? part cs).map (c.utf8Size + ·)

/-- A text from a byte on; nothing if it is too short or no character begins there. -/
def fromByte? (byte : Nat) : List Char → Option (List Char)
  | [] => if byte = 0 then some [] else none
  | c :: cs =>
    if byte = 0 then some (c :: cs)
    else if c.utf8Size ≤ byte then fromByte? (byte - c.utf8Size) cs else none

/-- `Text.afterFirstWord`, read strictly: the first word is looked for in the line, and the line
read on from its end. -/
def afterFirstWordStrict (line : String) : Option String :=
  let word := (firstWord line).toList
  match findByte? word line.toList with
  | some byte => (fromByte? (byte + byteSize word) line.toList).map fun cs => .ofList (trimChars cs)
  | none => some ""

@[simp] theorem byteSize_cons (c : Char) (cs : List Char) :
    byteSize (c :: cs) = c.utf8Size + byteSize cs := rfl

/-- Texts put together take up the bytes of both. -/
theorem byteSize_append (cs cs' : List Char) :
    byteSize (cs ++ cs') = byteSize cs + byteSize cs' := by
  induction cs with
  | nil => exact (Nat.zero_add _).symm
  | cons c cs ih => rw [List.cons_append, byteSize_cons, byteSize_cons, ih, Nat.add_assoc]

/-- Behind some characters the rest of the text begins. -/
theorem fromByte?_append (cs rest : List Char) :
    fromByte? (byteSize cs) (cs ++ rest) = some rest := by
  induction cs with
  | nil => cases rest <;> rfl
  | cons c cs ih =>
    have hpos := c.utf8Size_pos
    rw [byteSize_cons, List.cons_append, fromByte?, if_neg (by omega), if_pos (by omega),
      Nat.add_sub_cancel_left, ih]

/-- A word is found behind the white space in front of it. -/
theorem findByte?_append {blank word : List Char} (hblank : ∀ c ∈ blank, isBlank c = true)
    (hword : ∀ c ∈ word, isBlank c = false) (hne : word ≠ []) (rest : List Char) :
    findByte? word (blank ++ (word ++ rest)) = some (byteSize blank) := by
  obtain ⟨w, word, rfl⟩ := List.exists_cons_of_ne_nil hne
  induction blank with
  | nil =>
    rw [List.nil_append, List.cons_append, findByte?, if_pos]
    · rfl
    · exact List.isPrefixOf_iff_prefix.2 (List.prefix_append (w :: word) rest)
  | cons c blank ih =>
    have hw : (w == c) = false := beq_false_of_ne fun heq => by
      have hc := hblank c List.mem_cons_self
      rw [← heq, hword w List.mem_cons_self] at hc
      cases hc
    rw [List.cons_append, findByte?, List.isPrefixOf_cons_cons, hw, Bool.false_and,
      if_neg Bool.false_ne_true, ih fun c hc => hblank c (List.mem_cons_of_mem _ hc),
      Option.map_some, byteSize_cons]

variable (cs : List Char)

/-- The first word of a text is what stands before the next white space behind the white space in
front. -/
theorem headD_wordsOf : (wordsOf cs).headD [] = (trimStart cs).takeWhile (!isBlank ·) := by
  induction cs with
  | nil => rfl
  | cons c cs ih =>
    cases hc : isBlank c with
    | true =>
      rw [trimStart, List.dropWhile_cons, hc, if_pos rfl, ← trimStart, ← ih, wordsOf,
        pieces_cons_of_cut hc]
      rfl
    | false =>
      obtain ⟨rest, hrest⟩ := exists_pieces isBlank cs
      rw [trimStart, List.dropWhile_cons, hc, if_neg Bool.false_ne_true, List.takeWhile_cons, hc,
        wordsOf, pieces_cons_of_not_cut hc, hrest]
      rfl

/-- The first word of a line is what it begins with up to the next white space, leading white space
apart. -/
theorem toList_firstWord (line : String) :
    (firstWord line).toList = (trimStart line.toList).takeWhile (!isBlank ·) := by
  rw [← headD_wordsOf, firstWord, words]
  cases wordsOf line.toList with
  | nil => rfl
  | cons w ws => exact String.toList_ofList

/-- Behind the white space in front there is nothing or a word. -/
theorem trimStart_eq_nil_or_cons :
    trimStart cs = [] ∨ ∃ c rest, trimStart cs = c :: rest ∧ isBlank c = false := by
  have hhead := List.head?_dropWhile_not isBlank cs
  rw [← trimStart] at hhead
  cases htrim : trimStart cs with
  | nil => exact .inl rfl
  | cons c rest =>
    rw [htrim] at hhead
    exact .inr ⟨c, rest, rfl, hhead⟩

/-- What follows the first word of a line is there, be it nothing. -/
theorem afterFirstWordStrict_eq (line : String) :
    afterFirstWordStrict line = some (afterFirstWord line) := by
  simp only [afterFirstWordStrict, afterFirstWord, toList_firstWord]
  generalize line.toList = cs
  rcases trimStart_eq_nil_or_cons cs with hnil | ⟨c, rest, hcons, hc⟩
  · have hfind : findByte? [] cs = some 0 := by cases cs <;> rfl
    have hfrom : fromByte? (0 + byteSize []) cs = some cs := by cases cs <;> rfl
    have htrim : trimChars cs = [] := by rw [trimChars, hnil]; rfl
    simp only [hnil, List.takeWhile_nil, hfind, hfrom, htrim, Option.map_some]
    rfl
  · have hparts : cs = cs.takeWhile isBlank ++ ((trimStart cs).takeWhile (!isBlank ·) ++
        (trimStart cs).dropWhile (!isBlank ·)) := by
      rw [List.takeWhile_append_dropWhile, trimStart, List.takeWhile_append_dropWhile]
    have hne : (trimStart cs).takeWhile (!isBlank ·) ≠ [] := by
      rw [hcons, List.takeWhile_cons, hc]
      exact List.cons_ne_nil _ _
    have hnot : ∀ c ∈ (trimStart cs).takeWhile (!isBlank ·), isBlank c = false := fun c hc => by
      simpa using List.all_eq_true.1 List.all_takeWhile c hc
    have hblank : ∀ c ∈ cs.takeWhile isBlank, isBlank c = true :=
      List.all_eq_true.1 List.all_takeWhile
    generalize (trimStart cs).takeWhile (!isBlank ·) = word at hparts hne hnot ⊢
    generalize (trimStart cs).dropWhile (!isBlank ·) = behind at hparts ⊢
    generalize cs.takeWhile isBlank = blank at hparts hblank
    have hfind : findByte? word cs = some (byteSize blank) := by
      rw [hparts, findByte?_append hblank hnot hne]
    have hfrom : fromByte? (byteSize blank + byteSize word) cs = some behind := by
      rw [hparts, ← byteSize_append, ← List.append_assoc, fromByte?_append]
    simp only [hfind, hfrom, Option.map_some]

/-- Trimmed text begins with a word, if it is not empty. -/
theorem trimChars_eq_cons (h : trimChars cs ≠ []) :
    ∃ c rest, trimChars cs = c :: rest ∧ isBlank c = false := by
  have hprefix : trimChars cs <+: trimStart cs := by
    rw [trimChars, ← List.reverse_suffix, List.reverse_reverse]
    exact List.dropWhile_suffix isBlank
  obtain ⟨c, rest, hcons⟩ := List.exists_cons_of_ne_nil h
  obtain ⟨more, hmore⟩ := hprefix
  rw [hcons, List.cons_append] at hmore
  rcases trimStart_eq_nil_or_cons cs with hnil | ⟨c', rest', hcons', hc'⟩
  · rw [hnil] at hmore
    cases hmore
  · rw [hcons'] at hmore
    cases hmore
    exact ⟨c, rest, hcons, hc'⟩

/-- Trimmed text has a token, if it is not empty. -/
theorem tokens_ne_nil {line : String} (h : afterFirstWord line ≠ "") :
    tokens (afterFirstWord line) ≠ [] := by
  have hne : trimChars ((trimStart line.toList).dropWhile (!isBlank ·)) ≠ [] := fun hnil =>
    h (by rw [afterFirstWord, hnil])
  obtain ⟨c, rest, hcons, hc⟩ := trimChars_eq_cons _ hne
  have hattach : ∃ piece pieces, quotedPieces false (c :: rest) = (c :: piece) :: pieces := by
    have hone : ∀ l, ∃ piece pieces, attach c l = (c :: piece) :: pieces := fun l => by
      cases l <;> exact ⟨_, _, rfl⟩
    rw [quotedPieces, hc, Bool.false_and, if_neg Bool.false_ne_true]
    split <;> exact hone _
  obtain ⟨piece, pieces, hpieces⟩ := hattach
  rw [afterFirstWord, hcons, tokens, String.toList_ofList, hpieces, List.filter_cons_of_pos rfl]
  exact List.cons_ne_nil _ _

end Text

/-! ## Lines and blocks -/

namespace Document

variable (d : Document)

/-- `Document.paramsAt`, read strictly. -/
def paramsAtStrict (index : Nat) : Option String :=
  match d.lines[index]? with
  | some line => Text.afterFirstWordStrict line
  | none => some ""

/-- `Document.params?`, read strictly. -/
def paramsStrict (keyword : String) : Option (Option String) :=
  match d.find? keyword with
  | some index => (d.paramsAtStrict index).map some
  | none => some none

/-- `Document.requireParamsAt`, read strictly. -/
def requireParamsAtStrict (index : Nat) (keyword : String) : Strict CompileError String := do
  let text ← d.paramsAtStrict index
  if text == "" then throw (.missingParameter d.identity keyword index) else return text

/-- `Document.requireParams`, read strictly. -/
def requireParamsStrict (keyword : String) : Strict CompileError String := do
  let index ← d.require keyword
  d.requireParamsAtStrict index keyword

/-- `Document.slice`, read strictly: the lines are cut out by their places. -/
def sliceStrict (start stop : Nat) : Strict CompileError Document := do
  if start > stop || stop > d.size then throw (d.refused "<range>" s!"{start}..{stop}")
  let lines ← slice? d.lines start stop
  return { d with lines }

/-- `Document.betweenFrom`, read strictly. -/
def betweenFromStrict (opener closer : String) (start : Nat) :
    Strict CompileError (Document × Nat) := do
  let opened ← d.requireFrom opener start
  let closed ← d.requireFrom closer (opened + 1)
  let block ← d.sliceStrict (opened + 1) closed
  return (block, closed)

/-- `Document.between`, read strictly. -/
def betweenStrict (opener closer : String) : Strict CompileError Document := do
  let (block, _) ← d.betweenFromStrict opener closer 0
  return block

variable {d}

/-- The parameters of a line begin where a character does. -/
theorem paramsAtStrict_eq (index : Nat) : d.paramsAtStrict index = some (d.paramsAt index) := by
  unfold paramsAtStrict paramsAt
  cases d.lines[index]? with
  | some line => exact Text.afterFirstWordStrict_eq line
  | none => rfl

/-- The parameters of a keyword begin where a character does. -/
theorem paramsStrict_eq (keyword : String) : d.paramsStrict keyword = some (d.params? keyword) := by
  unfold paramsStrict params?
  cases d.find? keyword with
  | some index => exact congrArg (Option.map some) (paramsAtStrict_eq index)
  | none => rfl

/-- Asking for the parameters of a line takes nothing that is not there. -/
theorem requireParamsAtStrict_eq (index : Nat) (keyword : String) :
    d.requireParamsAtStrict index keyword = some (d.requireParamsAt index keyword) := by
  refine (Strict.take_bind (paramsAtStrict_eq index) _).trans ?_
  exact Strict.ite_eq (fun _ => rfl) fun _ => rfl

/-- Asking for the parameters of a keyword takes nothing that is not there. -/
theorem requireParamsStrict_eq (keyword : String) :
    d.requireParamsStrict keyword = some (d.requireParams keyword) :=
  Strict.read_bind fun index _ => requireParamsAtStrict_eq index keyword

/-- A block that passes the comparison of its places can be cut out. -/
theorem sliceStrict_eq (start stop : Nat) :
    d.sliceStrict start stop = some (d.slice start stop) := by
  refine Strict.ite_eq (fun _ => rfl) fun h => ?_
  simp only [Bool.or_eq_true, decide_eq_true_eq, not_or, Nat.not_lt] at h
  exact Strict.take_bind (slice?_eq h.1 h.2) _

/-- A block from a line on is cut out at places of the document. -/
theorem betweenFromStrict_eq (opener closer : String) (start : Nat) :
    d.betweenFromStrict opener closer start = some (d.betweenFrom opener closer start) :=
  Strict.read_bind fun _ _ => Strict.read_bind fun _ _ =>
    Strict.bind_eq (sliceStrict_eq _ _) fun _ _ => rfl

/-- A block is cut out at places of the document. -/
theorem betweenStrict_eq (opener closer : String) :
    d.betweenStrict opener closer = some (d.between opener closer) :=
  Strict.bind_eq (betweenFromStrict_eq opener closer 0) fun _ _ => rfl

/-- What has to follow the keyword has a token. -/
theorem tokens_ne_nil {index : Nat} {keyword text : String}
    (h : d.requireParamsAt index keyword = .ok text) : Text.tokens text ≠ [] := by
  obtain ⟨rfl, hne⟩ := requireParamsAt_ok.1 h
  unfold paramsAt at hne ⊢
  split at hne
  · exact Text.tokens_ne_nil hne
  · exact absurd rfl hne

/-- A line found is at a place of the document, and not before the one from which it was
looked for. -/
theorem findFrom?_spec {keyword : String} {start index : Nat}
    (h : d.findFrom? keyword start = some index) : start ≤ index ∧ index < d.size := by
  have hle : decide (start ≤ index) = true := List.find?_some (p := (start ≤ ·)) h
  refine ⟨of_decide_eq_true hle, ?_⟩
  have hmem := mem_positions.1 (List.mem_of_find?_eq_some h)
  unfold startsWith at hmem
  split at hmem
  next line hline => exact (List.getElem?_eq_some_iff.1 hline).1
  next => cases hmem

end Document

/-! ## Records -/

namespace Record

variable {doc : Document}

/-- `Record.readAt`, read strictly. -/
def readAtStrict (doc : Document) (opener closer : String) (line : Nat) :
    Strict CompileError (Record × Bool) := do
  let header ← doc.requireParamsAtStrict line opener
  let close ← doc.requireFrom closer (line + 1)
  let next := doc.findFrom? opener (line + 1)
  let stop := (next.filter (· < close)).getD close
  let block ← doc.sliceStrict (line + 1) stop
  return (⟨line, header, block.lines⟩, stop == close)

/-- `Record.split`, read strictly. -/
def splitStrict (doc : Document) (opener closer : String) : Strict CompileError (List Record) := do
  let records ← (doc.positions opener).mapM (readAtStrict doc opener closer)
  let used := records.countP (·.2)
  let found := doc.count closer
  if found != used then
    throw (.countMismatch doc.identity ("`" ++ closer ++ "` lines") used found)
  return records.map (·.1)

/-- A record is cut out at places of the document. -/
theorem readAtStrict_eq (opener closer : String) (line : Nat) :
    readAtStrict doc opener closer line = some (readAt doc opener closer line) :=
  Strict.bind_eq (Document.requireParamsAtStrict_eq _ _) fun _ _ => Strict.read_bind fun _ _ =>
    Strict.bind_eq (Document.sliceStrict_eq _ _) fun _ _ => rfl

/-- All records are cut out at places of the document. -/
theorem splitStrict_eq (opener closer : String) :
    splitStrict doc opener closer = some (split doc opener closer) :=
  Strict.bind_eq (Strict.mapM_eq fun line _ => readAtStrict_eq opener closer line) fun _ _ =>
    Strict.guard_eq fun _ => rfl

end Record

end HouseRules
