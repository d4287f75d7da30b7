import Mathlib.Data.List.Induction
import HouseRules.Proofs.Deck
import HouseRules.Proofs.Operation

/-!
# One order on the cards of a deck

A ranking block gives an attribute the score of the last line that names it (`Ranking.IsScore`),
which one step of reading preserves line by line (`Ranking.isScore_append`). So the order of cards
can be told from the lines alone: an attribute is above another if its last line is earlier, or if
the other has none (`Ranking.Above`), and one card outranks another by its face, or by its group
where neither face is above the other (`Ranking.outranks_iff`). Comparing ranks answers with numbers
whose signs tell this order (`Ranking.InOrder`): positive where the first card outranks the second,
negative where the second outranks the first, and zero where the two match in rank.

The verbs that match cards compare them with the first one only. Since each respect in which cards
are compared is an equivalence (`Likeness.equal_equivalence`), that is comparing every two of them
(`Operation.agree_iff`), in whatever order they are given.

Names are held in memory once or several times. Cards that hold addresses of names compare the
addresses before the names, which does not change any answer (`Card.Held.agree_read`).

Reference: `Ranking.compile`, `Ranking.compare` and the verbs that ask for ranks (specification 4.3,
E2.3, E3).
-/

namespace HouseRules

/-! ## Scores -/

namespace Ranking

/-- The line names the attribute; a card without group has none that a line could name. -/
def Lists (line : String) (x : Option String) : Prop := ∃ word ∈ x, word ∈ Text.words line

/-- The last line that names the attribute. -/
def LastAt (lines : List String) (x : Option String) (i : Nat) : Prop :=
  (∃ line, lines[i]? = some line ∧ Lists line x) ∧
    ∀ j line, lines[j]? = some line → Lists line x → j ≤ i

/-- The score of an attribute: one for the last line of the block and one more for each line that
the last line naming the attribute is ahead of it; zero if there is none. -/
def IsScore (lines : List String) (x : Option String) (n : Nat) : Prop :=
  (∃ i, LastAt lines x i ∧ n = lines.length - i) ∨ n = 0 ∧ ∀ line ∈ lines, ¬ Lists line x

/-- The first attribute is above the second: the last line that names it is ahead of every line that
is the last to name the second. -/
def Above (lines : List String) (x y : Option String) : Prop :=
  ∃ i, LastAt lines x i ∧ ∀ j, LastAt lines y j → i < j

variable {lines : List String} {x y : Option String} {n m i j : Nat}

/-- The last line that names an attribute is one of the lines. -/
theorem LastAt.lt_length (h : LastAt lines x i) : i < lines.length := by
  obtain ⟨⟨line, hline, -⟩, -⟩ := h
  exact (List.getElem?_eq_some_iff.1 hline).1

/-- An attribute has at most one last line. -/
theorem LastAt.unique (hi : LastAt lines x i) (hj : LastAt lines x j) : i = j := by
  obtain ⟨⟨line, hline, hlists⟩, hlast⟩ := hi
  obtain ⟨⟨line', hline', hlists'⟩, hlast'⟩ := hj
  exact Nat.le_antisymm (hlast' i line hline hlists) (hlast j line' hline' hlists')

/-- An attribute with a last line is named by some line. -/
theorem LastAt.not_forall (h : LastAt lines x i) : ¬ ∀ line ∈ lines, ¬ Lists line x := by
  obtain ⟨⟨line, hline, hlists⟩, -⟩ := h
  exact fun hnone => hnone line (List.mem_of_getElem? hline) hlists

/-- The earlier the last line of an attribute, the higher its score. -/
theorem IsScore.lt_iff (hx : IsScore lines x n) (hy : IsScore lines y m) :
    m < n ↔ Above lines x y := by
  constructor
  · intro hlt
    obtain ⟨i, hi, rfl⟩ | ⟨rfl, -⟩ := hx
    · refine ⟨i, hi, fun j hj => ?_⟩
      obtain ⟨k, hk, rfl⟩ | ⟨-, hnone⟩ := hy
      · rw [hj.unique hk]
        omega
      · exact absurd hnone hj.not_forall
    · omega
  · rintro ⟨i, hi, habove⟩
    obtain ⟨k, hk, rfl⟩ | ⟨-, hnone⟩ := hx
    · have hlt := hi.lt_length
      rw [hk.unique hi]
      obtain ⟨j, hj, rfl⟩ | ⟨rfl, -⟩ := hy
      · have hj' := habove j hj
        have hlt' := hj.lt_length
        omega
      · omega
    · exact absurd hnone hi.not_forall

/-! ## Reading a block -/

/-- The line that is added is the last that names what it names. -/
theorem lastAt_append_of_lists {line : String} (h : Lists line x) :
    LastAt (lines ++ [line]) x lines.length := by
  refine ⟨⟨line, List.getElem?_concat_length, h⟩, fun j line' hj _ => ?_⟩
  have hlt := (List.getElem?_eq_some_iff.1 hj).1
  rw [List.length_append, List.length_singleton] at hlt
  omega

/-- A further line that does not name the attribute leaves its last line where it was. -/
theorem LastAt.append (hi : LastAt lines x i) {line : String} (h : ¬ Lists line x) :
    LastAt (lines ++ [line]) x i := by
  have hlt := hi.lt_length
  obtain ⟨⟨line', hline, hlists⟩, hlast⟩ := hi
  refine ⟨⟨line', by rwa [List.getElem?_append_left hlt], hlists⟩, fun j l hj hl => ?_⟩
  rcases Nat.lt_or_ge j lines.length with hjlt | hjge
  · exact hlast j l (by rwa [List.getElem?_append_left hjlt] at hj) hl
  · rw [List.getElem?_append_right hjge] at hj
    have hmem := List.mem_of_getElem? hj
    rw [List.mem_singleton] at hmem
    exact absurd (hmem ▸ hl) h

/-- The scores after some lines of a block of `size` lines, as `score` gives them to declared
names. -/
def ScoresUpTo (size : Nat) (declared : List String) (lines : List String)
    (scores : List (String × Nat)) : Prop :=
  ∀ word ∈ declared, (∃ i, LastAt lines (some word) i ∧ score scores word = size - i) ∨
    score scores word = 0 ∧ ∀ line ∈ lines, ¬ Lists line (some word)

/-- A line names an attribute when it is one of its words. -/
theorem lists_some {line word : String} : Lists line (some word) ↔ word ∈ Text.words line := by
  simp [Lists]

/-- One more line gives its score to the names on it. -/
theorem ScoresUpTo.append {size : Nat} {declared : List String}
    {scores scores' : List (String × Nat)} (h : ScoresUpTo size declared lines scores)
    {line : String} (hline : ∀ word ∈ declared, score scores' word =
      if word ∈ Text.words line then size - lines.length else score scores word) :
    ScoresUpTo size declared (lines ++ [line]) scores' := by
  intro word hword
  rw [hline word hword]
  by_cases hlists : Lists line (some word)
  · rw [if_pos (lists_some.1 hlists)]
    exact .inl ⟨lines.length, lastAt_append_of_lists hlists, rfl⟩
  · rw [if_neg (lists_some.not.1 hlists)]
    obtain ⟨i, hi, heq⟩ | ⟨heq, hnone⟩ := h word hword
    · exact .inl ⟨i, hi.append hlists, heq⟩
    · refine .inr ⟨heq, fun l hl => ?_⟩
      rcases List.mem_append.1 hl with hl | hl
      · exact hnone l hl
      · exact List.mem_singleton.1 hl ▸ hlists

/-- The score of a name is that of its first entry. -/
theorem score_cons (scores : List (String × Nat)) (word name : String) (n : Nat) :
    score ((word, n) :: scores) name = if name = word then n else score scores name := by
  simp only [score, List.lookup_cons]
  by_cases h : name = word
  · simp [h]
  · simp [h, beq_false_of_ne h]

variable {deck : Deck} {block : Document} {r r' : Ranking}

/-- A word gets its score as a face if it is one, and as a group if it is one. -/
theorem addWord?_eq_some {word : String} (h : addWord? deck n r word = some r') :
    (∀ face ∈ deck.faces, score r'.faces face = if face = word then n else score r.faces face) ∧
      ∀ group ∈ deck.groups, score r'.groups group =
        if group = word then n else score r.groups group := by
  unfold addWord? at h
  split at h
  next => cases h
  next =>
    cases h
    constructor
    · intro face hface
      dsimp only
      split
      · exact score_cons r.faces word face n
      next hnot =>
        have hne : face ≠ word := by
          rintro rfl
          exact hnot (List.elem_eq_true_of_mem hface)
        rw [if_neg hne]
    · intro group hgroup
      dsimp only
      split
      · exact score_cons r.groups word group n
      next hnot =>
        have hne : group ≠ word := by
          rintro rfl
          exact hnot (List.elem_eq_true_of_mem hgroup)
        rw [if_neg hne]

/-- A line gives one score to all names on it. -/
theorem addTier_ok {line : String} (h : addTier block deck r n line = .ok r') :
    (∀ face ∈ deck.faces, score r'.faces face =
        if face ∈ Text.words line then n else score r.faces face) ∧
      ∀ group ∈ deck.groups, score r'.groups group =
        if group ∈ Text.words line then n else score r.groups group := by
  rw [addTier] at h
  generalize Text.words line = words at h ⊢
  induction words generalizing r with
  | nil =>
    cases h
    simp
  | cons word words ih =>
    rw [List.foldlM_cons, bind_ok] at h
    obtain ⟨r₁, hr₁, h⟩ := h
    obtain ⟨hfaces, hgroups⟩ := addWord?_eq_some (orFail_eq_ok.1 hr₁)
    obtain ⟨hfaces', hgroups'⟩ := ih h
    constructor
    · intro face hface
      rw [hfaces' face hface, hfaces face hface]
      by_cases hmem : face ∈ words <;> simp [hmem]
    · intro group hgroup
      rw [hgroups' group hgroup, hgroups group hgroup]
      by_cases hmem : group ∈ words <;> simp [hmem]

/-- Reading keeps the scores right, line by line. -/
theorem scoresUpTo_of_foldlM {size : Nat} (h : lines.zipIdx.foldlM
      (fun r x => addTier block deck r (size - x.2) x.1) flat = .ok r) :
    ScoresUpTo size deck.faces lines r.faces ∧ ScoresUpTo size deck.groups lines r.groups := by
  induction lines using List.reverseRecOn generalizing r with
  | nil =>
    cases h
    exact ⟨fun _ _ => .inr ⟨rfl, by simp⟩, fun _ _ => .inr ⟨rfl, by simp⟩⟩
  | append_singleton lines line ih =>
    rw [List.zipIdx_append, List.foldlM_append, bind_ok] at h
    obtain ⟨r₁, hr₁, h⟩ := h
    obtain ⟨hfaces, hgroups⟩ := ih hr₁
    rw [Nat.zero_add, List.zipIdx_singleton, List.foldlM_cons, bind_ok] at h
    obtain ⟨r₂, hr₂, h⟩ := h
    cases h
    obtain ⟨hface, hgroup⟩ := addTier_ok hr₂
    exact ⟨hfaces.append hface, hgroups.append hgroup⟩

/-- The key of a card is made of the scores of its face and its group. -/
theorem isScore_key (hrank : compile block deck = .ok r) {c : Card} (hface : c.face ∈ deck.faces)
    (hgroup : ∀ g ∈ c.group, g ∈ deck.groups) :
    IsScore block.lines (some c.face) (r.key c).1 ∧ IsScore block.lines c.group (r.key c).2 := by
  obtain ⟨hfaces, hgroups⟩ := scoresUpTo_of_foldlM hrank
  refine ⟨hfaces _ hface, ?_⟩
  cases hc : c.group with
  | none =>
    refine .inr ⟨by rw [key, hc]; rfl, fun line _ ⟨word, hword, _⟩ => ?_⟩
    cases hword
  | some group =>
    have hkey : (r.key c).2 = score r.groups group := by rw [key, hc]; rfl
    rw [hkey]
    exact hgroups group (hgroup group hc)

/-! ## The order -/

/-- A way to compare cards is a total preorder. -/
structure IsTotalPreorder (cmp : Card → Card → Ordering) : Prop where
  refl : ∀ a, cmp a a = .eq
  swap : ∀ a b, cmp b a = (cmp a b).swap
  trans : ∀ a b c, cmp a b ≠ .gt → cmp b c ≠ .gt → cmp a c ≠ .gt

/-- A card compares as greater when its face scores more, or as much and its group scores more. -/
theorem compare_eq_gt_iff {a b : Card} : r.compare a b = .gt ↔
    (r.key b).1 < (r.key a).1 ∨ (r.key a).1 = (r.key b).1 ∧ (r.key b).2 < (r.key a).2 := by
  rw [compare, Ordering.then_eq_gt, Nat.compare_eq_gt, Nat.compare_eq_eq, Nat.compare_eq_gt]

/-- The comparison of a ranking is a total preorder: cards are put in order by their scores. -/
theorem isTotalPreorder_compare (r : Ranking) : IsTotalPreorder r.compare where
  refl a := by simp [compare]
  swap a b := by
    rw [compare, compare, Ordering.swap_then, ← Nat.compare_swap, ← Nat.compare_swap (r.key a).2]
  trans a b c hab hbc hac := by
    rw [ne_eq, compare_eq_gt_iff] at hab hbc
    rw [compare_eq_gt_iff] at hac
    omega

/-- Numbers that tell how two cards compare: not negative where the first is at least as high as the
second, with the sign turned where the two are exchanged. Being at least as high is a total
preorder. -/
structure InOrder (answer : Card → Card → Int) : Prop where
  self : ∀ a, answer a a = 0
  swap : ∀ a b, answer b a = -answer a b
  trans : ∀ a b c, 0 ≤ answer a b → 0 ≤ answer b c → 0 ≤ answer a c

/-- A card outranks another when its face scores more, or not less and its group scores more. -/
theorem outranks_iff_key {a b : Card} : r.outranks a b = true ↔
    (r.key b).1 < (r.key a).1 ∨ ¬ (r.key a).1 < (r.key b).1 ∧ (r.key b).2 < (r.key a).2 := by
  rw [outranks, beq_iff_eq, compare_eq_gt_iff]
  omega

/-- Which card is higher, told from the lines of the block: the one whose face is above, or where
neither face is, the one whose group is. -/
theorem outranks_iff (hrank : compile block deck = .ok r) {a b : Card}
    (ha : a.face ∈ deck.faces ∧ ∀ g ∈ a.group, g ∈ deck.groups)
    (hb : b.face ∈ deck.faces ∧ ∀ g ∈ b.group, g ∈ deck.groups) :
    r.outranks a b = true ↔ Above block.lines (some a.face) (some b.face) ∨
      ¬ Above block.lines (some b.face) (some a.face) ∧ Above block.lines a.group b.group := by
  obtain ⟨haface, hagroup⟩ := isScore_key hrank ha.1 ha.2
  obtain ⟨hbface, hbgroup⟩ := isScore_key hrank hb.1 hb.2
  rw [outranks_iff_key, haface.lt_iff hbface, hbface.lt_iff haface, hagroup.lt_iff hbgroup]

end Ranking

/-! ## Matching -/

namespace Likeness

/-- Two cards are equal in a respect. -/
def Equal (r : Ranking) : Likeness → Card → Card → Prop
  | .attributes, a, b => a.face = b.face ∧ a.group = b.group
  | .face, a, b => a.face = b.face
  | .group, a, b => a.group = b.group
  | .rank, a, b => r.compare a b = .eq

variable {r : Ranking} {a b : Card}

/-- Cards are alike in a respect exactly if they are equal in it. -/
theorem holds_iff (respect : Likeness) : respect.holds r a b = true ↔ respect.Equal r a b := by
  cases respect <;> simp [holds, Equal, Card.alike, Card.sameFace, Card.sameGroup, Ranking.tied]

/-- Each respect falls apart into classes of cards, those of one key for the rank. -/
theorem equal_equivalence (r : Ranking) (respect : Likeness) : Equivalence (respect.Equal r) := by
  cases respect with
  | attributes =>
    exact ⟨fun _ => ⟨rfl, rfl⟩, fun h => ⟨h.1.symm, h.2.symm⟩,
      fun h h' => ⟨h.1.trans h'.1, h.2.trans h'.2⟩⟩
  | face => exact ⟨fun _ => rfl, Eq.symm, Eq.trans⟩
  | group => exact ⟨fun _ => rfl, Eq.symm, Eq.trans⟩
  | rank =>
    have hkey : ∀ a b, Likeness.rank.Equal r a b ↔ r.key a = r.key b := fun a b => by
      rw [← Ranking.tied_iff, Ranking.tied, beq_iff_eq]
      rfl
    exact ⟨fun a => (hkey a a).2 rfl, fun h => (hkey _ _).2 ((hkey _ _).1 h).symm,
      fun h h' => (hkey _ _).2 (((hkey _ _).1 h).trans ((hkey _ _).1 h'))⟩

end Likeness

namespace Operation

variable {cards cards' : List Card} {r : Ranking} {respect : Likeness}

/-- All cards agree with the first just if every two of them do. -/
theorem agree_iff : agree (respect.holds r) cards = true ↔
    ∀ a ∈ cards, ∀ b ∈ cards, respect.Equal r a b := by
  obtain ⟨hrefl, hsymm, htrans⟩ := respect.equal_equivalence r
  cases cards with
  | nil => simp [agree]
  | cons first rest =>
    simp only [agree, List.all_eq_true, Likeness.holds_iff]
    constructor
    · intro h
      have hfirst : ∀ a ∈ first :: rest, respect.Equal r first a :=
        List.forall_mem_cons.2 ⟨hrefl first, h⟩
      exact fun a ha b hb => htrans (hsymm (hfirst a ha)) (hfirst b hb)
    · exact fun h b hb => h first List.mem_cons_self b (List.mem_cons_of_mem _ hb)

/-- The order of the cards does not matter. -/
theorem agree_perm (h : cards.Perm cards') :
    agree (respect.holds r) cards = agree (respect.holds r) cards' := by
  rw [Bool.eq_iff_iff, agree_iff, agree_iff]
  simp only [h.mem_iff]

variable {phases : Nat} {t : Table} {value : Value} {a b : Card}

/-- A call that is checked is answered by its operation. -/
theorem dispatch_of_prepare {c : Call} (op : Operation) (h : prepare c t phases = .ok op) :
    dispatch c r phases t = .ok (op.run r t) := by
  rw [dispatch, h]
  rfl

/-- What the verbs that match cards answer. -/
theorem dispatch_verb (h : value.fits .cards = true) :
    dispatch ⟨respect.verb, [value]⟩ r phases t =
      .ok (.bool (agree (respect.holds r) value.asCards), t) := by
  refine dispatch_of_prepare (.allLike respect value.asCards) ?_
  cases value <;> first
    | cases respect <;> rfl
    | cases h

/-- The number that an order is answered with. -/
def numberOf : Ordering → Int
  | .lt => -1
  | .eq => 0
  | .gt => 1

/-- An order is answered with its number. -/
theorem ofOrdering_eq (o : Ordering) : ofOrdering o = .integer (numberOf o) := by
  cases o <;> rfl

/-- The number is positive for "higher". -/
theorem numberOf_pos {o : Ordering} : 0 < numberOf o ↔ o = .gt := by
  cases o <;> simp [numberOf]

/-- The number is zero for "equal". -/
theorem numberOf_eq_zero {o : Ordering} : numberOf o = 0 ↔ o = .eq := by
  cases o <;> simp [numberOf]

/-- The number is not negative unless for "lower", which is "higher" with the two exchanged. -/
theorem numberOf_nonneg {o : Ordering} : 0 ≤ numberOf o ↔ o.swap ≠ .gt := by
  cases o <;> simp [numberOf]

/-- Exchanging the two turns the sign. -/
theorem numberOf_swap (o : Ordering) : numberOf o.swap = -numberOf o := by
  cases o <;> rfl

/-- The numbers that a total preorder is answered with are in order. -/
theorem inOrder_numberOf {cmp : Card → Card → Ordering} (h : Ranking.IsTotalPreorder cmp) :
    Ranking.InOrder fun a b => numberOf (cmp a b) where
  self a := numberOf_eq_zero.2 (h.refl a)
  swap a b := by rw [h.swap a b, numberOf_swap]
  trans a b c hab hbc := by
    rw [numberOf_nonneg, ← h.swap] at *
    exact h.trans c b a hbc hab

/-- The verb that compares ranks answers with a number. -/
theorem dispatch_compareRank : dispatch ⟨.compareRank, [.card a, .card b]⟩ r phases t =
    .ok (.integer (numberOf (r.compare a b)), t) := by
  rw [← ofOrdering_eq]
  exact dispatch_of_prepare (.compareRank a b) rfl

/-- The verb that checks ranks answers whether the first card is strictly higher. -/
theorem dispatch_checkRank :
    dispatch ⟨.checkRank, [.card a, .card b]⟩ r phases t = .ok (.bool (r.outranks a b), t) :=
  dispatch_of_prepare (.outranks a b) rfl

/-- The number is positive just if the first card is strictly higher. -/
theorem numberOf_pos_iff : 0 < numberOf (r.compare a b) ↔ r.outranks a b = true := by
  rw [numberOf_pos, Ranking.outranks, beq_iff_eq]

/-- The number is negative just if the second card is strictly higher. -/
theorem numberOf_neg_iff : numberOf (r.compare a b) < 0 ↔ r.outranks b a = true := by
  rw [← numberOf_pos_iff, (Ranking.isTotalPreorder_compare r).swap a b, numberOf_swap, Int.neg_pos]

/-- The verb that matches ranks answers for two cards whether their number is zero. -/
theorem dispatch_sameRank_pair :
    dispatch ⟨.sameRank, [.cards [a, b]]⟩ r phases t =
      .ok (.bool (numberOf (r.compare a b) = 0), t) := by
  have hdispatch : dispatch ⟨Likeness.rank.verb, [.cards [a, b]]⟩ r phases t =
      .ok (.bool (agree (Likeness.rank.holds r) (Value.cards [a, b]).asCards), t) :=
    dispatch_verb rfl
  have hagree : agree (Likeness.rank.holds r) [a, b] = decide (numberOf (r.compare a b) = 0) := by
    rw [Bool.eq_iff_iff, decide_eq_true_iff, numberOf_eq_zero]
    simp [agree, Likeness.holds, Ranking.tied]
  rwa [Value.asCards, hagree] at hdispatch

end Operation

/-! ## Names in memory -/

/-- A card as memory holds it: its face and group are addresses of names. -/
structure Card.Held where
  id : CardId
  face : Nat
  group : Option Nat

namespace Card.Held

variable (memory : Nat → String)

/-- The card that is read at its addresses. -/
def read (c : Held) : Card := ⟨c.id, memory c.face, c.group.map memory⟩

/-- Whether two addresses hold one name: they are one address, or the names are equal. -/
def sameName (a b : Nat) : Bool := a == b || memory a == memory b

/-- Whether two cards have one face. -/
def sameFace (a b : Held) : Bool := sameName memory a.face b.face

/-- Whether two cards have one group, or neither has any. -/
def sameGroup (a b : Held) : Bool :=
  match a.group, b.group with
  | some g, some g' => sameName memory g g'
  | none, none => true
  | _, _ => false

/-- Whether two cards agree in a respect. Ranks are looked up by name. -/
def holds (ranking : Ranking) : Likeness → Held → Held → Bool
  | .attributes, a, b => sameFace memory a b && sameGroup memory a b
  | .face, a, b => sameFace memory a b
  | .group, a, b => sameGroup memory a b
  | .rank, a, b => ranking.tied (read memory a) (read memory b)

/-- Whether all cards agree with the first. -/
def agree (same : Held → Held → Bool) : List Held → Bool
  | [] => true
  | first :: rest => rest.all (same first)

variable {memory}

/-- One address holds one name. -/
theorem sameName_eq (a b : Nat) : sameName memory a b = (memory a == memory b) := by
  rw [sameName, Bool.or_eq_right_iff_imp, beq_iff_eq, beq_iff_eq]
  exact congrArg memory

/-- Comparing addresses first tells the faces apart as the names do. -/
theorem sameFace_eq (a b : Held) : sameFace memory a b = (read memory a).sameFace (read memory b) :=
  sameName_eq a.face b.face

/-- Comparing addresses first tells the groups apart as the names do. -/
theorem sameGroup_eq (a b : Held) :
    sameGroup memory a b = (read memory a).sameGroup (read memory b) := by
  unfold sameGroup Card.sameGroup read
  cases a.group <;> cases b.group <;> simp [sameName_eq]

/-- Comparing addresses first tells no other cards alike than comparing names. -/
theorem holds_eq (ranking : Ranking) (respect : Likeness) (a b : Held) :
    holds memory ranking respect a b = respect.holds ranking (read memory a) (read memory b) := by
  cases respect with
  | attributes => rw [holds, sameFace_eq, sameGroup_eq]; rfl
  | face => exact sameFace_eq a b
  | group => exact sameGroup_eq a b
  | rank => rfl

/-- Comparing addresses first gives no other answer than comparing names. -/
theorem agree_read (ranking : Ranking) (respect : Likeness) (cs : List Held) :
    agree (holds memory ranking respect) cs =
      Operation.agree (respect.holds ranking) (cs.map (read memory)) := by
  cases cs with
  | nil => rfl
  | cons first rest =>
    have hfirst : holds memory ranking respect first =
        (respect.holds ranking (read memory first)) ∘ read memory :=
      funext fun c => holds_eq ranking respect first c
    rw [agree, List.map_cons, Operation.agree, List.all_map, hfirst]

end Card.Held

/-! ## Rank and match verbs -/

namespace Ranking

/-- Keys are what the last line naming an attribute makes them, so faces decide and earlier lines
are higher. Comparing ranks is a total preorder; its answers are numbers in order, positive where
the first card is checked to be strictly higher, negative where the second one is, and zero where
the two match in rank. Whether cards match is whether every two of them do, however they are ordered
and their names are held. -/
theorem one_order {doc block : Document} {deck : Deck} {r : Ranking}
    (hdeck : Deck.compile doc = .ok deck) (hrank : compile block deck = .ok r) :
    (∀ c ∈ deck.cards, IsScore block.lines (some c.face) (r.key c).1 ∧
      IsScore block.lines c.group (r.key c).2) ∧
    (∀ a ∈ deck.cards, ∀ b ∈ deck.cards, r.outranks a b = true ↔
      Above block.lines (some a.face) (some b.face) ∨
        ¬ Above block.lines (some b.face) (some a.face) ∧ Above block.lines a.group b.group) ∧
    IsTotalPreorder r.compare ∧
    (∃ answer : Card → Card → Int, InOrder answer ∧ ∀ a b,
      (0 < answer a b ↔ r.outranks a b = true) ∧ (answer a b < 0 ↔ r.outranks b a = true) ∧
      (answer a b = 0 ↔ Likeness.rank.Equal r a b) ∧ ∀ phases t,
        Operation.dispatch ⟨.compareRank, [.card a, .card b]⟩ r phases t =
          .ok (.integer (answer a b), t) ∧
        Operation.dispatch ⟨.checkRank, [.card a, .card b]⟩ r phases t =
          .ok (.bool (0 < answer a b), t) ∧
        Operation.dispatch ⟨.checkRank, [.card b, .card a]⟩ r phases t =
          .ok (.bool (answer a b < 0), t) ∧
        Operation.dispatch ⟨.sameRank, [.cards [a, b]]⟩ r phases t =
          .ok (.bool (answer a b = 0), t)) ∧
    ∀ (respect : Likeness) (cards : List Card), ∃ answer,
      (answer = true ↔ ∀ a ∈ cards, ∀ b ∈ cards, respect.Equal r a b) ∧
      (∀ value phases t, value.fits .cards = true → value.asCards.Perm cards →
        Operation.dispatch ⟨respect.verb, [value]⟩ r phases t = .ok (.bool answer, t)) ∧
      ∀ memory held, (held.map (Card.Held.read memory)).Perm cards →
        Card.Held.agree (Card.Held.holds memory r respect) held = answer := by
  obtain ⟨head, cardsAt, hhead, hcards⟩ := Deck.written_of_compile hdeck
  have hexpands := Deck.expands_of_compile hhead hcards hdeck
  have hdeclared : ∀ c ∈ deck.cards, c.face ∈ deck.faces ∧ ∀ g ∈ c.group, g ∈ deck.groups := by
    intro c hc
    rw [hexpands.faces, hexpands.groups]
    exact ⟨hexpands.face_mem c hc, hexpands.group_mem c hc⟩
  have hpreorder := isTotalPreorder_compare r
  refine ⟨fun c hc => isScore_key hrank (hdeclared c hc).1 (hdeclared c hc).2,
    fun a ha b hb => outranks_iff hrank (hdeclared a ha) (hdeclared b hb), hpreorder,
    ⟨_, Operation.inOrder_numberOf hpreorder, fun a b =>
      ⟨Operation.numberOf_pos_iff, Operation.numberOf_neg_iff, Operation.numberOf_eq_zero,
        fun phases t => ⟨Operation.dispatch_compareRank, ?_, ?_,
          Operation.dispatch_sameRank_pair⟩⟩⟩,
    fun respect cards => ⟨Operation.agree (respect.holds r) cards, Operation.agree_iff, ?_, ?_⟩⟩
  · simp only [Operation.dispatch_checkRank, Operation.numberOf_pos_iff, Bool.decide_eq_true]
  · simp only [Operation.dispatch_checkRank, Operation.numberOf_neg_iff, Bool.decide_eq_true]
  · intro value phases t hfits hperm
    rw [Operation.dispatch_verb hfits, Operation.agree_perm hperm]
  · intro memory held hperm
    rw [Card.Held.agree_read, Operation.agree_perm hperm]

/-- A deck in which `red` is a face and a group. -/
def reds : Document :=
  ⟨.deck, "reds", ["size 4", "faces ace red", "groups red black", "cards all"]⟩

/-- A ranking that names `red` twice. -/
def redLast : Document := ⟨.rules, "reds", ["ace red", "black", "red"]⟩

/-- What the ranking is read as. -/
def redLastRead : Ranking :=
  ⟨[("red", 1), ("red", 3), ("ace", 3)], [("red", 1), ("black", 2), ("red", 3)]⟩

/-- The face `red` is last, so every ace is above it; the black ace is above the red one by its
group, which comparing the two answers with a positive number; and two aces match in face, though
the name of the face is held at two addresses. -/
theorem redLast_one_order :
    IsScore redLast.lines (some "red") 1 ∧
      redLastRead.outranks ⟨0, "ace", "red"⟩ ⟨2, "red", "red"⟩ = true ∧
      (∃ n : Int, 0 < n ∧ ∀ t,
        Operation.dispatch ⟨.compareRank, [.card ⟨1, "ace", "black"⟩, .card ⟨0, "ace", "red"⟩]⟩
          redLastRead 0 t = .ok (.integer n, t)) ∧
      (∀ t, Operation.dispatch ⟨.checkRank, [.card ⟨1, "ace", "black"⟩, .card ⟨0, "ace", "red"⟩]⟩
        redLastRead 0 t = .ok (.bool true, t)) ∧
      Card.Held.agree
        (Card.Held.holds (fun i => ["ace", "ace", "red", "black"][i]?.getD "") redLastRead .face)
        [⟨1, 1, some 3⟩, ⟨0, 0, some 2⟩] = true := by
  have hdeck : Deck.compile reds = .ok ⟨"reds", [⟨0, "ace", "red"⟩, ⟨1, "ace", "black"⟩,
      ⟨2, "red", "red"⟩, ⟨3, "red", "black"⟩], ["ace", "red"], ["red", "black"], none⟩ := by rfl
  obtain ⟨hkeys, hhigher, -, ⟨answer, -, hverbs⟩, hmatch⟩ :=
    @one_order reds redLast _ redLastRead hdeck (by rfl)
  obtain ⟨same, hiff, -, hheld⟩ := hmatch .face [⟨1, "ace", "black"⟩, ⟨0, "ace", "red"⟩]
  have hace := hkeys ⟨0, "ace", "red"⟩ (by decide)
  have hred := hkeys ⟨2, "red", "red"⟩ (by decide)
  have hpositive : 0 < answer ⟨1, "ace", "black"⟩ ⟨0, "ace", "red"⟩ :=
    (hverbs _ _).1.2 (by decide)
  refine ⟨hred.1, (hhigher _ (by decide) _ (by decide)).2 (.inl ?_),
    ⟨_, hpositive, fun t => ((hverbs _ _).2.2.2 0 t).1⟩, fun t => ?_, ?_⟩
  · exact (hace.1.lt_iff hred.1).1 (by decide)
  · rw [((hverbs _ _).2.2.2 0 t).2.1, decide_eq_true hpositive]
  · rw [hheld _ _ (.refl _)]
    exact hiff.2 (by simp [Likeness.Equal])

end Ranking

end HouseRules
