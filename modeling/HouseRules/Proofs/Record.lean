import Mathlib.Computability.RegularExpressions
import Mathlib.Data.List.Sort
import HouseRules.Proofs.Text.Words
import HouseRules.Record

/-!
# The grammar of records

`Record.split` looks for the end of each record on its own, the next opener and the next closer
apart, and counts at last how many closers have ended a record. Here this is shown to accept a
regular language and to cut the document where that language says: the lines that open or close a
record have to read as one or more openers and a closer, any number of times (`Record.blocks`), and
every opener has to say what it opens (`Record.split_blocks`).

All that a record depends on is the next line with either keyword (`Document.NextMark`), so along
the list of these lines reading is one recursion (`Record.recordsFrom`). The count at the end
compares all closers of that list with those that come right after an opener, and they are as many
only in blocks (`Record.closed_iff`).

Reference: `records.split` (specification 4.2, E2.3).
-/

namespace HouseRules

/-! ## Searching for a keyword -/

namespace Document

variable {d : Document} {keyword : String} {start i : Nat}

/-- A line starts with a keyword when the document has it and the keyword is its first word. -/
theorem startsWith_iff : d.startsWith i keyword = true ↔
    ∃ line, d.lines[i]? = some line ∧ Text.firstWord line = keyword := by
  unfold startsWith
  cases d.lines[i]? <;> simp

/-- A line that starts with a keyword is one of the document. -/
theorem lt_of_startsWith (h : d.startsWith i keyword = true) : i < d.size := by
  obtain ⟨line, hline, -⟩ := startsWith_iff.1 h
  exact (List.getElem?_eq_some_iff.1 hline).1

/-- The positions of a keyword come in the order of the lines. -/
theorem pairwise_positions (d : Document) (keyword : String) :
    (d.positions keyword).Pairwise (· < ·) := by
  have hall : (d.lines.zipIdx.map (·.2)).Pairwise (· < ·) := by
    rw [List.zipIdx_map_snd]
    exact List.pairwise_lt_range' 1
  exact hall.sublist (List.filter_sublist.map _)

/-- The line found is the first one from `start` on. -/
theorem findFrom?_eq_some : d.findFrom? keyword start = some i ↔
    start ≤ i ∧ d.startsWith i keyword = true ∧
      ∀ j, start ≤ j → j < i → d.startsWith j keyword = false := by
  rw [findFrom?, List.find?_eq_some_iff_append, decide_eq_true_eq]
  refine and_congr_right fun hstart => ?_
  constructor
  · rintro ⟨before, after, heq, hbefore⟩
    refine ⟨mem_positions.1 (heq ▸ List.mem_append_right _ List.mem_cons_self), ?_⟩
    intro j hj hlt
    rw [Bool.eq_false_iff]
    intro hword
    have hsorted := heq ▸ d.pairwise_positions keyword
    have hmem : j ∈ before ++ i :: after := heq ▸ mem_positions.2 hword
    rcases List.mem_append.1 hmem with hmem | hmem
    · exact absurd (hbefore j hmem) (by simpa using hj)
    · have hle := (List.pairwise_append.1 hsorted).2.1
      rcases List.mem_cons.1 hmem with rfl | hmem
      · exact absurd hlt (Nat.lt_irrefl j)
      · exact absurd (List.rel_of_pairwise_cons hle hmem) (Nat.lt_asymm hlt)
  · rintro ⟨hword, hfirst⟩
    obtain ⟨before, after, heq⟩ := List.append_of_mem (mem_positions.2 hword)
    refine ⟨before, after, heq, fun j hj => ?_⟩
    have hlt := (List.pairwise_append.1 (heq ▸ d.pairwise_positions keyword)).2.2 j hj i
      List.mem_cons_self
    have hstarts := mem_positions.1 (heq ▸ List.mem_append_left _ hj)
    rw [Bool.not_eq_true', decide_eq_false_iff_not]
    exact fun hle => absurd hstarts (by simp [hfirst j hle hlt])

/-- A keyword is not found from a line on exactly if no line from there on starts with it. -/
theorem findFrom?_eq_none : d.findFrom? keyword start = none ↔
    ∀ j, start ≤ j → d.startsWith j keyword = false := by
  simp only [findFrom?, List.find?_eq_none, mem_positions, decide_eq_true_eq]
  refine forall_congr' fun j => ?_
  cases d.startsWith j keyword <;> simp

/-- The line at `j` is the next one after `i` that starts with one of two keywords. -/
structure NextMark (d : Document) (opener closer : String) (i j : Nat) : Prop where
  lt : i < j
  marked : d.startsWith j opener = true ∨ d.startsWith j closer = true
  between : ∀ k, i < k → k < j → d.startsWith k opener = false ∧ d.startsWith k closer = false

end Document

namespace Record

variable {doc : Document} {opener closer : String} {i j : Nat}

/-! ## One record -/

/-- What a line is to records. -/
inductive Mark where
  /-- It opens a record. -/
  | opens
  /-- It closes a block of records. -/
  | closes
  deriving Repr, DecidableEq

/-- What a line is to the records between two keywords, if it is anything to them. -/
def Mark.of? (opener closer line : String) : Option Mark :=
  if Text.firstWord line = opener then some .opens
  else if Text.firstWord line = closer then some .closes
  else none

/-- The keyword of a mark. -/
def Mark.keyword (opener closer : String) : Mark → String
  | .opens => opener
  | .closes => closer

/-- What is done with a line that opens a record depends on the next line with a keyword and on
whether any closer follows. -/
theorem readAt_next (hnext : doc.NextMark opener closer i j)
    (htext : doc.paramsAt i ≠ "") (hclose : ∃ c, i < c ∧ doc.startsWith c closer = true) :
    readAt doc opener closer i =
      .ok (⟨i, doc.paramsAt i, (doc.lines.take j).drop (i + 1)⟩, doc.startsWith j closer) := by
  obtain ⟨close, hfind⟩ : ∃ close, doc.findFrom? closer (i + 1) = some close := by
    obtain ⟨c, hlt, hc⟩ := hclose
    refine Option.ne_none_iff_exists'.1 fun hnone => ?_
    rw [Document.findFrom?_eq_none.1 hnone c hlt] at hc
    cases hc
  obtain ⟨hafter, hcloses, hfirst⟩ := Document.findFrom?_eq_some.1 hfind
  have hle : j ≤ close := by
    refine Nat.le_of_not_lt fun hlt => ?_
    rw [(hnext.between close hafter hlt).2] at hcloses
    cases hcloses
  have hstop : ((doc.findFrom? opener (i + 1)).filter (· < close)).getD close = j ∧
      (j == close) = doc.startsWith j closer := by
    cases hj : doc.startsWith j closer with
    | true =>
      -- The closer comes first, so no opener is found before it.
      have heq : close = j := Nat.le_antisymm (Nat.le_of_not_lt fun hlt => by
        rw [hfirst j hnext.lt hlt] at hj
        cases hj) hle
      have hnone : (doc.findFrom? opener (i + 1)).filter (· < close) = none := by
        refine Option.filter_eq_none_iff.2 fun k hk => ?_
        obtain ⟨hk, hopens, -⟩ := Document.findFrom?_eq_some.1 hk
        rw [decide_eq_true_eq, heq]
        intro hlt
        rw [(hnext.between k hk hlt).1] at hopens
        cases hopens
      rw [hnone, heq]
      exact ⟨rfl, beq_self_eq_true j⟩
    | false =>
      have hopens := hnext.marked.resolve_right (by simp [hj])
      have hnone : ∀ k, i + 1 ≤ k → k < j → doc.startsWith k opener = false := fun k hk hlt =>
        (hnext.between k hk hlt).1
      have hlt : j < close := Nat.lt_of_le_of_ne hle fun heq => by
        rw [heq, hcloses] at hj
        cases hj
      rw [Document.findFrom?_eq_some.2 ⟨hnext.lt, hopens, hnone⟩,
        Option.filter_some_pos (by simpa using hlt)]
      exact ⟨rfl, beq_false_of_ne (Nat.ne_of_lt hlt)⟩
  have hsize : j ≤ doc.size := Nat.le_trans hle (Nat.le_of_lt (Document.lt_of_startsWith hcloses))
  have hslice : doc.slice (i + 1) j =
      .ok { doc with lines := (doc.lines.take j).drop (i + 1) } := by
    refine if_neg ?_
    simpa using ⟨hnext.lt, hsize⟩
  rw [readAt, Document.requireParamsAt_ok.2 ⟨rfl, htext⟩, Document.requireFrom, hfind, orFail_some]
  dsimp only [bind, Except.bind]
  rw [hstop.1, hslice]
  simp only [hstop.2]
  rfl

/-- A line is read as a record only if something follows the keyword and some closer follows the
line. -/
theorem exists_of_readAt {r : Record × Bool} (h : readAt doc opener closer i = .ok r) :
    r.1.line = i ∧ doc.paramsAt i ≠ "" ∧ ∃ c, i < c ∧ doc.startsWith c closer = true := by
  simp only [readAt, bind_ok, pure_ok] at h
  obtain ⟨text, htext, close, hclose, block, -, rfl⟩ := h
  obtain ⟨hparams, hne⟩ := Document.requireParamsAt_ok.1 htext
  obtain ⟨hafter, hcloses, -⟩ := Document.findFrom?_eq_some.1 (orFail_eq_ok.1 hclose)
  exact ⟨rfl, hparams ▸ hne, close, hafter, hcloses⟩

/-! ## The lines with a keyword -/

/-- The lines of a document that open or close a record, in order, as what they are. -/
def marks (doc : Document) (opener closer : String) : List Mark :=
  doc.lines.filterMap (Mark.of? opener closer)

/-- The same with their places. -/
def marked (doc : Document) (opener closer : String) : List (Nat × Mark) :=
  doc.lines.zipIdx.filterMap fun (line, i) => (Mark.of? opener closer line).map (i, ·)

/-- Without their places the lines with a keyword are the marks. -/
theorem map_snd_marked : (marked doc opener closer).map (·.2) = marks doc opener closer := by
  have hlines : doc.lines.zipIdx.map (·.1) = doc.lines := List.zipIdx_map_fst 0 doc.lines
  rw [marks, ← hlines, List.filterMap_map, marked, List.map_filterMap]
  refine List.filterMap_congr fun x _ => ?_
  rw [Option.map_map]
  exact Option.map_id'

/-- The lines with a keyword come in the order of their places. -/
theorem pairwise_marked : (marked doc opener closer).Pairwise (·.1 < ·.1) := by
  have hall : (doc.lines.zipIdx.map (·.2)).Pairwise (· < ·) := by
    rw [List.zipIdx_map_snd]
    exact List.pairwise_lt_range' 1
  refine (List.pairwise_map.1 hall).filterMap _ fun x y hlt a ha b hb => ?_
  obtain ⟨_, -, rfl⟩ := Option.map_eq_some_iff.1 ha
  obtain ⟨_, -, rfl⟩ := Option.map_eq_some_iff.1 hb
  exact hlt

/-- A line stands in the list as what its first word says, where the two keywords differ. -/
theorem mem_marked (hne : opener ≠ closer) {m : Mark} :
    (i, m) ∈ marked doc opener closer ↔ doc.startsWith i (m.keyword opener closer) = true := by
  have hof : ∀ line, Mark.of? opener closer line = some m ↔
      Text.firstWord line = m.keyword opener closer := by
    intro line
    unfold Mark.of?
    cases m <;> grind [Mark.keyword]
  simp only [marked, List.mem_filterMap, Prod.exists, List.mem_zipIdx_iff_getElem?,
    Option.map_eq_some_iff, Prod.mk.injEq, Document.startsWith_iff]
  constructor
  · rintro ⟨line, k, hline, m', hm, rfl, rfl⟩
    exact ⟨line, hline, (hof line).1 hm⟩
  · rintro ⟨line, hline, hword⟩
    exact ⟨line, i, hline, m, (hof line).2 hword, rfl, rfl⟩

/-- The positions of a keyword are the places of its mark. -/
theorem positions_eq (hne : opener ≠ closer) (m : Mark) :
    doc.positions (m.keyword opener closer) =
      ((marked doc opener closer).filter (·.2 = m)).map (·.1) := by
  have hsorted : (((marked doc opener closer).filter (·.2 = m)).map (·.1)).Pairwise (· < ·) :=
    List.pairwise_map.2 (pairwise_marked.sublist List.filter_sublist)
  refine (doc.pairwise_positions _).eq_of_mem_iff hsorted fun i => ?_
  simp [Document.mem_positions, ← mem_marked hne]

/-- Neighbours in the list are next to each other in the document. -/
theorem nextMark_of_suffix (hne : opener ≠ closer) {m m' : Mark} {rest : List (Nat × Mark)}
    (h : (i, m) :: (j, m') :: rest <:+ marked doc opener closer) :
    doc.NextMark opener closer i j := by
  obtain ⟨before, heq⟩ := h
  have hall : (marked doc opener closer).Pairwise (·.1 < ·.1) := pairwise_marked
  have hsorted := List.pairwise_append.1 (heq ▸ hall)
  have hbefore : ∀ x ∈ before, x.1 < i := fun x hx => hsorted.2.2 x hx _ List.mem_cons_self
  have hlt : i < j := List.rel_of_pairwise_cons hsorted.2.1 List.mem_cons_self
  have hrest : ∀ x ∈ rest, j < x.1 := fun x hx =>
    List.rel_of_pairwise_cons (List.Pairwise.of_cons hsorted.2.1) hx
  have hnone : ∀ k, i < k → k < j → ∀ m, (k, m) ∉ marked doc opener closer := by
    intro k hik hkj m hm
    rw [← heq, List.mem_append, List.mem_cons, List.mem_cons, Prod.mk.injEq, Prod.mk.injEq] at hm
    rcases hm with hm | ⟨rfl, -⟩ | ⟨rfl, -⟩ | hm
    · exact absurd (hbefore _ hm) (Nat.lt_asymm hik)
    · exact absurd hik (Nat.lt_irrefl k)
    · exact absurd hkj (Nat.lt_irrefl k)
    · exact absurd (hrest _ hm) (Nat.lt_asymm hkj)
  have hj : (j, m') ∈ marked doc opener closer :=
    heq ▸ List.mem_append_right _ (List.mem_cons_of_mem _ List.mem_cons_self)
  refine ⟨hlt, ?_, fun k hik hkj => ?_⟩
  · cases m' with
    | opens => exact .inl ((mem_marked hne).1 hj)
    | closes => exact .inr ((mem_marked hne).1 hj)
  · constructor <;> rw [Bool.eq_false_iff] <;> intro hk
    · exact hnone k hik hkj .opens ((mem_marked hne).2 hk)
    · exact hnone k hik hkj .closes ((mem_marked hne).2 hk)

/-- The records that lines with a keyword open, each with whether a closer ends it. -/
def recordsFrom (doc : Document) : List (Nat × Mark) → List (Record × Bool)
  | (i, .opens) :: (j, m) :: rest =>
    (⟨i, doc.paramsAt i, (doc.lines.take j).drop (i + 1)⟩, m == .closes) ::
      recordsFrom doc ((j, m) :: rest)
  | _ :: rest => recordsFrom doc rest
  | [] => []

/-- Behind the openers and closers of the document there are no more. -/
theorem lt_of_suffix {m : Mark} {rest : List (Nat × Mark)}
    (h : (i, m) :: rest <:+ marked doc opener closer) : ∀ x ∈ rest, i < x.1 := fun _ hx =>
  List.rel_of_pairwise_cons (pairwise_marked.sublist h.sublist) hx

/-- What stands at the place of a mark starts with the closer exactly if the mark closes. -/
theorem startsWith_of_suffix (hne : opener ≠ closer) {m : Mark} {rest : List (Nat × Mark)}
    (h : (j, m) :: rest <:+ marked doc opener closer) :
    doc.startsWith j closer = (m == .closes) := by
  have hj : (j, m) ∈ marked doc opener closer := h.subset List.mem_cons_self
  cases m with
  | closes => exact (mem_marked hne).1 hj
  | opens =>
    refine Bool.eq_false_iff.2 fun hcloses => hne ?_
    obtain ⟨line, hline, hopens⟩ := Document.startsWith_iff.1 ((mem_marked hne).1 hj)
    obtain ⟨_, hline', hcloses⟩ := Document.startsWith_iff.1 hcloses
    obtain rfl := Option.some.inj (hline.symm.trans hline')
    exact hopens.symm.trans hcloses

/-- Reading the openers among the last lines with a keyword: each has to say what it opens, and the
last of the lines has to be a closer. -/
theorem mapM_readAt (hne : opener ≠ closer) {ms : List (Nat × Mark)}
    (hms : ms <:+ marked doc opener closer) {read : List (Record × Bool)} :
    ((ms.filter (·.2 = .opens)).map (·.1)).mapM (readAt doc opener closer) = .ok read ↔
      (∀ i, (i, .opens) ∈ ms → doc.paramsAt i ≠ "") ∧
        (∀ last ∈ ms.getLast?, last.2 = .closes) ∧ read = recordsFrom doc ms := by
  induction ms generalizing read with
  | nil =>
    rw [List.filter_nil, List.map_nil, List.mapM_nil, pure_ok, eq_comm]
    simp [recordsFrom]
  | cons x rest ih =>
    obtain ⟨i, m⟩ := x
    have hrest := @ih (List.IsSuffix.trans (List.suffix_cons _ _) hms)
    have hmem : ∀ x ∈ rest, x ∈ marked doc opener closer := fun x hx =>
      hms.subset (List.mem_cons_of_mem _ hx)
    have hlt := lt_of_suffix hms
    cases m with
    | closes =>
      rw [List.filter_cons_of_neg (by simp), hrest]
      cases rest <;> simp [recordsFrom]
    | opens =>
      rw [List.filter_cons_of_pos (by simp), List.map_cons, List.mapM_cons]
      simp only [bind_ok, pure_ok, hrest]
      cases rest with
      | nil =>
        -- No closer follows the last line with a keyword.
        refine iff_of_false ?_ fun h => absurd (h.2.1 _ rfl) nofun
        rintro ⟨r, hr, -⟩
        obtain ⟨-, -, c, hc, hcloses⟩ := exists_of_readAt hr
        obtain ⟨before, heq⟩ := hms
        have hsorted : (marked doc opener closer).Pairwise (·.1 < ·.1) := pairwise_marked
        rw [← heq] at hsorted
        have hmem := (mem_marked (m := .closes) hne).2 hcloses
        rw [← heq, List.mem_append, List.mem_singleton] at hmem
        rcases hmem with hmem | hmem
        · exact absurd ((List.pairwise_append.1 hsorted).2.2 _ hmem _ List.mem_cons_self)
            (Nat.lt_asymm hc)
        · cases hmem
      | cons y rest =>
        obtain ⟨j, m⟩ := y
        have hnext := nextMark_of_suffix hne hms
        have hends := startsWith_of_suffix hne (List.IsSuffix.trans (List.suffix_cons _ _) hms)
        constructor
        · rintro ⟨r, hr, read, ⟨htexts, hlast, rfl⟩, rfl⟩
          obtain ⟨-, htext, hclose⟩ := exists_of_readAt hr
          rw [readAt_next hnext htext hclose, hends] at hr
          refine ⟨?_, hlast, ?_⟩
          · intro k hk
            rcases List.mem_cons.1 hk with hk | hk
            · cases hk
              exact htext
            · exact htexts k hk
          · rw [recordsFrom, Except.ok.inj hr]
        · rintro ⟨htexts, hlast, rfl⟩
          have htext := htexts i List.mem_cons_self
          have hclose : ∃ c, i < c ∧ doc.startsWith c closer = true := by
            obtain ⟨c, hc⟩ : ∃ c, ((j, m) :: rest).getLast? = some c :=
              Option.ne_none_iff_exists'.1 (by simp)
            have hrest := List.mem_of_getLast? hc
            have hcloses : (c.1, .closes) ∈ marked doc opener closer := hlast c hc ▸ hmem c hrest
            exact ⟨c.1, hlt c hrest, (mem_marked hne).1 hcloses⟩
          refine ⟨_, readAt_next hnext htext hclose, _,
            ⟨fun k hk => htexts k (List.mem_cons_of_mem _ hk), hlast, rfl⟩, ?_⟩
          rw [recordsFrom, hends]

/-! ## Blocks -/

/-- How many closers come right after an opener. -/
def endings : List Mark → Nat
  | .opens :: .closes :: ms => endings ms + 1
  | _ :: ms => endings ms
  | [] => 0

/-- As many records are ended by a closer as closers come right after an opener. -/
theorem countP_recordsFrom (ms : List (Nat × Mark)) :
    (recordsFrom doc ms).countP (·.2) = endings (ms.map (·.2)) := by
  induction ms using recordsFrom.induct with
  | case1 i j m rest ih =>
    rw [recordsFrom, List.countP_cons, ih]
    cases m <;> simp [endings]
  | case2 x rest hx ih =>
    rw [recordsFrom, ih, List.map_cons]
    · obtain ⟨i, m⟩ := x
      cases m with
      | closes => rfl
      | opens =>
        cases rest with
        | nil => rfl
        | cons y rest => exact (hx i y.1 y.2 rest rfl rfl).elim
    · exact hx
  | case3 => rfl

/-- No more closers come right after an opener than there are closers. -/
theorem endings_le (ms : List Mark) : endings ms ≤ ms.count .closes := by
  fun_induction endings ms <;> grind

/-- A block of records: one or more openers and a closer. -/
def block : RegularExpression Mark := .char .opens * .star (.char .opens) * .char .closes

/-- Blocks of records, any number of them. -/
def blocks : RegularExpression Mark := .star block

/-- Whether openers and closers form blocks, where a block may have been begun already. -/
def closed (begun : Bool) : List Mark → Bool
  | [] => !begun
  | .opens :: ms => closed true ms
  | .closes :: ms => begun && closed false ms

/-- The number of closers is right, and the last line with a keyword is a closer, just for
blocks. -/
theorem closed_iff (ms : List Mark) :
    (closed false ms = true ↔
      (∀ last ∈ ms.getLast?, last = .closes) ∧ ms.count .closes = endings ms) ∧
    (closed true ms = true ↔
      (∀ last ∈ (Mark.opens :: ms).getLast?, last = .closes) ∧
        (Mark.opens :: ms).count .closes = endings (.opens :: ms)) := by
  induction ms with
  | nil => simp [closed, endings]
  | cons m ms ih =>
    cases m with
    | opens =>
      refine ⟨ih.2, ih.2.trans ?_⟩
      rw [List.getLast?_cons_cons]
      simp [endings]
    | closes =>
      have hle := endings_le ms
      constructor
      · -- A closer that nothing opens is one too many.
        simp only [closed, Bool.false_and, Bool.false_eq_true, false_iff, not_and, endings,
          List.count_cons_self]
        omega
      · rw [closed, Bool.true_and, ih.1]
        cases ms <;> simp [endings]

/-- Whether a block that has been begun is closed does not depend on how many openers follow. -/
theorem closed_true {os ms : List Mark} (h : ∀ m ∈ os, m = .opens) :
    closed true (os ++ .closes :: ms) = closed false ms := by
  induction os with
  | nil => rfl
  | cons m os ih =>
    rw [h m List.mem_cons_self]
    exact ih fun m hm => h m (List.mem_cons_of_mem _ hm)

/-- A row of openers is any number of them and nothing else. -/
theorem mem_star_opens {os : List Mark} :
    os ∈ (RegularExpression.star (.char Mark.opens)).matches' ↔ ∀ m ∈ os, m = .opens := by
  rw [RegularExpression.matches'_star, RegularExpression.matches'_char, Language.mem_kstar]
  constructor
  · rintro ⟨parts, rfl, hparts⟩ m hm
    obtain ⟨part, hpart, hm⟩ := List.mem_flatten.1 hm
    rw [Set.mem_singleton_iff.1 (hparts part hpart)] at hm
    exact List.mem_singleton.1 hm
  · intro h
    refine ⟨os.map ([·]), ?_, fun part hpart => ?_⟩
    · rw [← List.flatMap_def, List.flatMap_singleton']
    · obtain ⟨m, hm, rfl⟩ := List.mem_map.1 hpart
      rw [h m hm]
      rfl

/-- A block is an opener, any number of further ones, and a closer. -/
theorem mem_block {ms : List Mark} : ms ∈ block.matches' ↔
    ∃ os, (∀ m ∈ os, m = .opens) ∧ ms = .opens :: (os ++ [.closes]) := by
  simp only [block, RegularExpression.matches'_mul, Language.mem_mul, mem_star_opens,
    RegularExpression.matches'_char]
  constructor
  · rintro ⟨_, ⟨o, ho, os, hos, rfl⟩, c, hc, rfl⟩
    rw [Set.mem_singleton_iff.1 ho, Set.mem_singleton_iff.1 hc]
    exact ⟨os, hos, rfl⟩
  · rintro ⟨os, hos, rfl⟩
    exact ⟨_, ⟨[.opens], rfl, os, hos, rfl⟩, [.closes], rfl, rfl⟩

/-- What is left of a list after a block that has been begun. -/
theorem exists_of_closed_true {ms : List Mark} (h : closed true ms = true) :
    ∃ os rest, (∀ m ∈ os, m = .opens) ∧ ms = os ++ .closes :: rest ∧
      closed false rest = true := by
  induction ms with
  | nil => cases h
  | cons m ms ih =>
    cases m with
    | opens =>
      obtain ⟨os, rest, hos, rfl, hrest⟩ := ih h
      exact ⟨.opens :: os, rest, List.forall_mem_cons.2 ⟨rfl, hos⟩, rfl, hrest⟩
    | closes => exact ⟨[], ms, nofun, rfl, h⟩

/-- Openers and closers form blocks just if every block that is begun is closed. -/
theorem mem_blocks {ms : List Mark} : ms ∈ blocks.matches' ↔ closed false ms = true := by
  rw [blocks, RegularExpression.matches'_star, Language.mem_kstar]
  constructor
  · rintro ⟨parts, rfl, hparts⟩
    induction parts with
    | nil => rfl
    | cons part parts ih =>
      rw [List.forall_mem_cons] at hparts
      obtain ⟨os, hos, rfl⟩ := mem_block.1 hparts.1
      rw [List.flatten_cons, List.cons_append, List.append_assoc]
      exact (closed_true hos).trans (ih hparts.2)
  · intro h
    induction hlength : ms.length using Nat.strong_induction_on generalizing ms with
    | _ n ih =>
      cases ms with
      | nil => exact ⟨[], rfl, nofun⟩
      | cons m ms =>
        cases m with
        | closes => cases h
        | opens =>
          obtain ⟨os, rest, hos, rfl, hrest⟩ := exists_of_closed_true h
          have hlt : rest.length < n := by
            rw [← hlength, List.length_cons, List.length_append, List.length_cons]
            omega
          obtain ⟨parts, rfl, hparts⟩ := ih _ hlt hrest rfl
          refine ⟨(.opens :: (os ++ [.closes])) :: parts, by simp, ?_⟩
          exact List.forall_mem_cons.2 ⟨mem_block.2 ⟨os, hos, rfl⟩, hparts⟩

/-! ## Records and where they end -/

/-- A record is what stands between the line that opens it and the next line with a keyword. -/
structure Spans (doc : Document) (opener closer : String) (r : Record) (stop : Nat) : Prop
    extends doc.NextMark opener closer r.line stop where
  opens : doc.startsWith r.line opener = true
  header : r.header = doc.paramsAt r.line
  body : r.body = (doc.lines.take stop).drop (r.line + 1)

namespace Spans

variable {r r' : Record} {stop stop' : Nat}

/-- The line that opens a record and its body reach up to where it stops. -/
theorem length_body (h : r.Spans doc opener closer stop) :
    r.line + r.body.length + 1 = stop := by
  have hlt := h.lt
  have hsize : stop < doc.size :=
    h.marked.elim Document.lt_of_startsWith Document.lt_of_startsWith
  rw [Document.size] at hsize
  rw [h.body, List.length_drop, List.length_take]
  omega

/-- Lines with a keyword are in no body. -/
theorem firstWord_ne (h : r.Spans doc opener closer stop) {line : String} (hline : line ∈ r.body) :
    Text.firstWord line ≠ opener ∧ Text.firstWord line ≠ closer := by
  rw [h.body] at hline
  obtain ⟨k, hk⟩ := List.mem_iff_getElem?.1 hline
  rw [List.getElem?_drop, List.getElem?_take] at hk
  split at hk
  next hlt =>
    have hnone := h.between (r.line + 1 + k) (by omega) hlt
    simpa [Document.startsWith, hk] using hnone
  next => cases hk

/-- Of two records the one that opens first has ended where the other opens. -/
theorem le_line (h : r.Spans doc opener closer stop) (h' : r'.Spans doc opener closer stop')
    (hlt : r.line < r'.line) : stop ≤ r'.line := by
  refine Nat.le_of_not_lt fun hinside => ?_
  have hnone := (h.between _ hlt hinside).1
  rw [h'.opens] at hnone
  cases hnone

/-- A line ends one record. -/
theorem unique (h : r.Spans doc opener closer stop) (h' : r'.Spans doc opener closer stop) :
    r = r' := by
  have hline : r.line = r'.line := by
    rcases Nat.lt_trichotomy r.line r'.line with hlt | heq | hlt
    · exact absurd (h.le_line h' hlt) (Nat.not_le_of_lt h'.lt)
    · exact heq
    · exact absurd (h'.le_line h hlt) (Nat.not_le_of_lt h.lt)
  obtain ⟨line, header, body⟩ := r
  obtain ⟨line', header', body'⟩ := r'
  obtain rfl : line = line' := hline
  rw [mk.injEq]
  exact ⟨rfl, h.header.trans h'.header.symm, h.body.trans h'.body.symm⟩

end Spans

/-- A record that is read between two lines with a keyword spans just the lines between them. -/
theorem spans_of_suffix (hne : opener ≠ closer) {m : Mark} {rest : List (Nat × Mark)}
    (h : (i, .opens) :: (j, m) :: rest <:+ marked doc opener closer) :
    Spans doc opener closer ⟨i, doc.paramsAt i, (doc.lines.take j).drop (i + 1)⟩ j where
  toNextMark := nextMark_of_suffix hne h
  opens := (mem_marked hne).1 (h.subset List.mem_cons_self)
  header := rfl
  body := rfl

/-- Every record that is read spans the lines up to a next line with a keyword. -/
theorem exists_spans (hne : opener ≠ closer) {ms : List (Nat × Mark)}
    (hms : ms <:+ marked doc opener closer) {r : Record × Bool} (hr : r ∈ recordsFrom doc ms) :
    ∃ stop, r.1.Spans doc opener closer stop := by
  induction ms using recordsFrom.induct with
  | case1 i j m rest ih =>
    rw [recordsFrom, List.mem_cons] at hr
    rcases hr with rfl | hr
    · exact ⟨j, spans_of_suffix hne hms⟩
    · exact ih (List.IsSuffix.trans (List.suffix_cons _ _) hms) hr
  | case2 x rest hx ih =>
    rw [recordsFrom] at hr
    · exact ih (List.IsSuffix.trans (List.suffix_cons _ _) hms) hr
    · exact hx
  | case3 => cases hr

/-- Where openers and closers form blocks, every closer ends a record, also where a block has been
begun. -/
theorem exists_record (hne : opener ≠ closer) {ms : List (Nat × Mark)} :
    (ms <:+ marked doc opener closer → closed false (ms.map (·.2)) = true →
      ∀ c, (c, .closes) ∈ ms → ∃ r ∈ recordsFrom doc ms, r.1.Spans doc opener closer c) ∧
    ∀ i, (i, .opens) :: ms <:+ marked doc opener closer → closed true (ms.map (·.2)) = true →
      ∀ c, (c, .closes) ∈ ms →
        ∃ r ∈ recordsFrom doc ((i, .opens) :: ms), r.1.Spans doc opener closer c := by
  induction ms with
  | nil => exact ⟨nofun, nofun⟩
  | cons x ms ih =>
    obtain ⟨j, m⟩ := x
    cases m with
    | opens =>
      constructor
      · intro hms hclosed c hc
        exact ih.2 j hms hclosed c (by simpa using hc)
      · intro i hms hclosed c hc
        have hrest := List.IsSuffix.trans (List.suffix_cons _ _) hms
        obtain ⟨r, hr, hspans⟩ := ih.2 j hrest hclosed c (by simpa using hc)
        exact ⟨r, List.mem_cons_of_mem _ hr, hspans⟩
    | closes =>
      constructor
      · intro _ hclosed
        cases hclosed
      · intro i hms hclosed c hc
        rw [recordsFrom]
        rcases List.mem_cons.1 hc with hc | hc
        · cases hc
          exact ⟨_, List.mem_cons_self, spans_of_suffix hne hms⟩
        · have hrest := (List.suffix_cons _ _).trans ((List.suffix_cons _ _).trans hms)
          obtain ⟨r, hr, hspans⟩ := ih.1 hrest hclosed c hc
          have hskip : recordsFrom doc ((j, .closes) :: ms) = recordsFrom doc ms := by
            cases ms <;> rfl
          exact ⟨r, List.mem_cons_of_mem _ (hskip ▸ hr), hspans⟩

/-! ## Splitting -/

/-- The lines that start with the closer are the marks that close. -/
theorem count_eq (hne : opener ≠ closer) :
    doc.count closer = (marks doc opener closer).count .closes := by
  have hpositions : doc.positions closer =
      ((marked doc opener closer).filter (·.2 = .closes)).map (·.1) := positions_eq hne .closes
  rw [Document.count, hpositions, List.length_map, ← List.countP_eq_length_filter,
    ← map_snd_marked, List.count, List.countP_map]
  exact List.countP_congr fun x _ => by simp

/-- Splitting reads the lines with a keyword, if these form blocks. -/
theorem split_eq_ok (hne : opener ≠ closer) {records : List Record} :
    split doc opener closer = .ok records ↔
      (∀ i ∈ doc.positions opener, doc.paramsAt i ≠ "") ∧
        marks doc opener closer ∈ blocks.matches' ∧
        records = (recordsFrom doc (marked doc opener closer)).map (·.1) := by
  have hopeners : doc.positions opener =
      ((marked doc opener closer).filter (·.2 = .opens)).map (·.1) := positions_eq hne .opens
  have hlast : (∀ last ∈ (marked doc opener closer).getLast?, last.2 = .closes) ↔
      ∀ last ∈ (marks doc opener closer).getLast?, last = .closes := by
    rw [← map_snd_marked, List.getLast?_map]
    cases (marked doc opener closer).getLast? <;> simp
  have htexts : (∀ i, (i, .opens) ∈ marked doc opener closer → doc.paramsAt i ≠ "") ↔
      ∀ i ∈ doc.positions opener, doc.paramsAt i ≠ "" := by
    refine forall_congr' fun i => ?_
    rw [mem_marked hne, Document.mem_positions, Mark.keyword]
  have hused : (recordsFrom doc (marked doc opener closer)).countP (·.2) =
      endings (marks doc opener closer) := by
    rw [countP_recordsFrom, map_snd_marked]
  have hread := fun read =>
    @mapM_readAt doc opener closer hne _ (List.suffix_refl (marked doc opener closer)) read
  rw [← hopeners] at hread
  simp only [split, bind_ok, guard_ok, pure_ok, bne_iff_ne, ne_eq, not_not, hread, htexts, hlast,
    count_eq hne]
  rw [mem_blocks, (closed_iff _).1]
  constructor
  · rintro ⟨read, ⟨htexts, hlast, rfl⟩, hcount, rfl⟩
    exact ⟨htexts, ⟨hlast, hcount.trans hused⟩, rfl⟩
  · rintro ⟨htexts, ⟨hlast, hcount⟩, rfl⟩
    exact ⟨_, ⟨htexts, hlast, rfl⟩, hcount.trans hused.symm, rfl⟩

/-- What follows the keyword on the lines that start with it is not empty where these lines have
more than one word. -/
theorem paramsAt_ne_iff : (∀ i ∈ doc.positions opener, doc.paramsAt i ≠ "") ↔
    ∀ line ∈ doc.lines, Text.firstWord line = opener → 1 < (Text.words line).length := by
  have hparams : ∀ i line, doc.lines[i]? = some line →
      (doc.paramsAt i ≠ "" ↔ 1 < (Text.words line).length) := fun i line hline => by
    rw [Document.paramsAt, hline, Ne, Text.afterFirstWord_eq_empty_iff, Nat.not_le]
  constructor
  · intro h line hline hword
    obtain ⟨i, hi⟩ := List.mem_iff_getElem?.1 hline
    have hstarts := Document.startsWith_iff.2 ⟨line, hi, hword⟩
    exact (hparams i line hi).1 (h i (Document.mem_positions.2 hstarts))
  · intro h i hi
    obtain ⟨line, hline, hword⟩ := Document.startsWith_iff.1 (Document.mem_positions.1 hi)
    exact (hparams i line hline).2 (h line (List.mem_of_getElem? hline) hword)

/-- There is one record for each opener. -/
theorem map_line_of_split {records : List Record} (h : split doc opener closer = .ok records) :
    records.map (·.line) = doc.positions opener := by
  simp only [split, bind_ok, guard_ok, pure_ok] at h
  obtain ⟨read, hread, -, rfl⟩ := h
  rw [List.map_map]
  refine (List.map_id _).symm.trans (forall₂_eq_iff.1 ?_) |>.symm
  exact (mapM_ok.1 hread).imp fun i r hr => (exists_of_readAt hr).1.symm

/-- **The grammar of records.** A document is split between two different keywords just if its lines
with the first keyword say what they open and its lines with either keyword form blocks, of one or
more openers and a closer. There is then one record for each opener, in order, with what follows the
keyword and the lines up to the next line with either keyword; no line with a keyword is in a body,
bodies do not overlap, and every closer ends exactly one record. -/
theorem split_blocks (doc : Document) {opener closer : String} (hne : opener ≠ closer) :
    (Succeeds (split doc opener closer) ↔
      (∀ line ∈ doc.lines, Text.firstWord line = opener → 1 < (Text.words line).length) ∧
        marks doc opener closer ∈ blocks.matches') ∧
    ∀ records, split doc opener closer = .ok records →
      records.map (·.line) = doc.positions opener ∧
      (∀ r ∈ records, (∃ stop, r.Spans doc opener closer stop) ∧
        ∀ line ∈ r.body, Text.firstWord line ≠ opener ∧ Text.firstWord line ≠ closer) ∧
      records.Pairwise (fun r r' => r.line + r.body.length < r'.line) ∧
      ∀ c ∈ doc.positions closer, ∃! r, r ∈ records ∧ r.Spans doc opener closer c := by
  constructor
  · rw [← paramsAt_ne_iff]
    constructor
    · rintro ⟨records, h⟩
      obtain ⟨htexts, hblocks, -⟩ := (split_eq_ok hne).1 h
      exact ⟨htexts, hblocks⟩
    · rintro ⟨htexts, hblocks⟩
      exact ⟨_, (split_eq_ok hne).2 ⟨htexts, hblocks, rfl⟩⟩
  · intro records h
    obtain ⟨htexts, hblocks, hrecords⟩ := (split_eq_ok hne).1 h
    have hlines := map_line_of_split h
    have hspans : ∀ r ∈ records, ∃ stop, r.Spans doc opener closer stop := by
      intro r hr
      obtain ⟨read, hread, rfl⟩ := List.mem_map.1 (hrecords ▸ hr)
      exact exists_spans hne List.suffix_rfl hread
    refine ⟨hlines, fun r hr => ⟨hspans r hr, ?_⟩, ?_, fun c hc => ?_⟩
    · obtain ⟨stop, hstop⟩ := hspans r hr
      exact fun _ => hstop.firstWord_ne
    · have hsorted : records.Pairwise (·.line < ·.line) :=
        List.pairwise_map.1 (hlines ▸ doc.pairwise_positions opener)
      refine hsorted.imp_of_mem fun {r r'} hr hr' hlt => ?_
      obtain ⟨stop, hstop⟩ := hspans r hr
      obtain ⟨stop', hstop'⟩ := hspans r' hr'
      have := hstop.le_line hstop' hlt
      have := hstop.length_body
      omega
    · have hmem := (mem_marked (m := .closes) hne).2 (Document.mem_positions.1 hc)
      have hmarks : (marked doc opener closer).map (·.2) = marks doc opener closer := map_snd_marked
      have hclosed := hmarks ▸ mem_blocks.1 hblocks
      obtain ⟨read, hread, hspan⟩ := (exists_record hne).1 List.suffix_rfl hclosed c hmem
      refine ⟨read.1, ⟨?_, hspan⟩, fun r hr => hr.2.unique hspan⟩
      rw [hrecords]
      exact List.mem_map_of_mem hread

/-- Two actions in one block. -/
def twoActions : Document :=
  ⟨.rules, "two", ["action draw", "put-top pile.draw pile.hand", "action pass", "end-turn",
    "end-action"]⟩

/-- The two actions are read, the second up to the closer; with another closer behind they are
refused. -/
theorem twoActions_split_blocks : "action" ≠ "end-action" ∧
    (∃ records, split twoActions "action" "end-action" = .ok records ∧
      records.map (·.line) = [0, 2] ∧
      ∃! r, r ∈ records ∧ r.Spans twoActions "action" "end-action" 4) ∧
    ¬ Succeeds (split { twoActions with lines := twoActions.lines ++ ["end-action"] } "action"
      "end-action") := by
  have hne : "action" ≠ "end-action" := by decide
  obtain ⟨haccepts, hrecords⟩ := split_blocks twoActions hne
  refine ⟨hne, ?_, fun h => ?_⟩
  · obtain ⟨records, h⟩ := haccepts.2 ⟨by decide +kernel, mem_blocks.2 (by decide +kernel)⟩
    obtain ⟨hlines, -, -, hends⟩ := hrecords records h
    exact ⟨records, h, hlines.trans (by decide +kernel), hends 4 (by decide +kernel)⟩
  · exact absurd (mem_blocks.1 ((split_blocks _ hne).1.1 h).2) (by decide +kernel)

end Record

end HouseRules
