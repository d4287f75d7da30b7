import HouseRules.Proofs.Text.Lowered
import HouseRules.Proofs.Text.Words
import HouseRules.Text.Quoted

/-!
# Where a comment starts

A place in a line is quoted if an odd number of quotes stands before it, so a line is without
comment if every number sign in it has an odd number of quotes before it (`Text.SignsQuoted`).
Cutting the comment is a retraction onto these lines: what it leaves is one
(`Text.signsQuoted_cutCommentFrom`), and it leaves such a line alone
(`Text.cutCommentFrom_of_signsQuoted`). What follows an unquoted number sign is not looked at
(`Text.cutCommentFrom_comment`).
-/

namespace HouseRules.Text

variable {cs before : List Char} {c : Char}

/-! ## Quoted number signs -/

/-- Every number sign is quoted, where a quote is open in front of the text if `quoted`. -/
def SignsQuoted (quoted : Bool) (cs : List Char) : Prop :=
  ∀ before after, cs = before ++ '#' :: after → Odd (quoted.toNat + before.count '"')

/-- A quote turns what is quoted behind it. -/
theorem odd_count_cons (quoted : Bool) (c : Char) (before : List Char) :
    Odd (quoted.toNat + (c :: before).count '"') ↔
      Odd ((quoted ^^ c == '"').toNat + before.count '"') := by
  rw [List.count_cons, Nat.odd_iff, Nat.odd_iff]
  cases quoted <;> cases c == '"' <;> simp <;> omega

/-- An empty text has no number sign. -/
theorem signsQuoted_nil (quoted : Bool) : SignsQuoted quoted [] := by
  intro before after h
  simp at h

/-- The number signs of a text are quoted if the first character is not an open one and the rest is
quoted behind it. -/
theorem signsQuoted_cons {quoted : Bool} : SignsQuoted quoted (c :: cs) ↔
    (c = '#' → quoted = true) ∧ SignsQuoted (quoted ^^ c == '"') cs := by
  constructor
  · refine fun h => ⟨fun hc => ?_, fun before after heq => ?_⟩
    · have hodd := h [] cs (by rw [hc, List.nil_append])
      cases quoted with
      | true => rfl
      | false => simp at hodd
    · have hodd := h (c :: before) after (by rw [heq, List.cons_append])
      exact (odd_count_cons quoted c before).1 hodd
  · rintro ⟨hsign, hcs⟩ before after heq
    cases before with
    | nil =>
      rw [List.nil_append, List.cons_eq_cons] at heq
      rw [hsign heq.1]
      exact odd_one
    | cons d before =>
      rw [List.cons_append, List.cons_eq_cons] at heq
      obtain ⟨rfl, heq⟩ := heq
      exact (odd_count_cons quoted c before).2 (hcs before after heq)

/-- A part of a line has no other number signs than the line, with as many quotes before them but
for those in front of the part. -/
theorem SignsQuoted.of_append {a m b : List Char} (h : SignsQuoted false (a ++ (m ++ b)))
    (ha : '"' ∉ a) : SignsQuoted false m := by
  intro before after heq
  have hodd := h (a ++ before) (after ++ b) (by simp [heq])
  rwa [List.count_append, List.count_eq_zero.2 ha, Nat.zero_add] at hodd

/-! ## Cutting the comment -/

/-- A comment begins at the first number sign that is not quoted. -/
theorem cutCommentFrom_cons (quoted : Bool) (c : Char) (cs : List Char) :
    cutCommentFrom quoted (c :: cs) =
      if c = '#' ∧ quoted = false then [] else c :: cutCommentFrom (quoted ^^ c == '"') cs := by
  by_cases hquote : c = '"'
  · subst hquote
    simp [cutCommentFrom]
  · by_cases hsign : c = '#'
    · subst hsign
      cases quoted <;> simp [cutCommentFrom]
    · simp [cutCommentFrom, hsign, beq_false_of_ne hquote]

/-- Cutting off a comment leaves a beginning of the text. -/
theorem cutCommentFrom_prefix (quoted : Bool) (cs : List Char) :
    cutCommentFrom quoted cs <+: cs := by
  induction cs generalizing quoted with
  | nil => exact List.prefix_rfl
  | cons c cs ih =>
    rw [cutCommentFrom_cons]
    split
    · exact List.nil_prefix
    · exact (List.prefix_cons_inj c).2 (ih _)

/-- What is left has no comment. -/
theorem signsQuoted_cutCommentFrom (quoted : Bool) (cs : List Char) :
    SignsQuoted quoted (cutCommentFrom quoted cs) := by
  induction cs generalizing quoted with
  | nil => exact signsQuoted_nil quoted
  | cons c cs ih =>
    rw [cutCommentFrom_cons]
    split
    · exact signsQuoted_nil quoted
    next hopen =>
      refine signsQuoted_cons.2 ⟨fun hsign => ?_, ih _⟩
      exact Bool.not_eq_false _ ▸ fun hquoted => hopen ⟨hsign, hquoted⟩

/-- A line without comment stays as it is. -/
theorem cutCommentFrom_of_signsQuoted {quoted : Bool} (h : SignsQuoted quoted cs) :
    cutCommentFrom quoted cs = cs := by
  induction cs generalizing quoted with
  | nil => rfl
  | cons c cs ih =>
    obtain ⟨hsign, hcs⟩ := signsQuoted_cons.1 h
    rw [cutCommentFrom_cons, if_neg, ih hcs]
    rintro ⟨hc, hquoted⟩
    rw [hsign hc] at hquoted
    cases hquoted

/-- Nothing from an unquoted number sign on is read. -/
theorem cutCommentFrom_comment {quoted : Bool} (h : Even (quoted.toNat + before.count '"'))
    (after : List Char) :
    cutCommentFrom quoted (before ++ '#' :: after) = cutCommentFrom quoted before := by
  induction before generalizing quoted with
  | nil =>
    cases quoted with
    | true => exact absurd h (by decide)
    | false => rfl
  | cons c before ih =>
    have hopen : Even ((quoted ^^ c == '"').toNat + before.count '"') := by
      rwa [← Nat.not_odd_iff_even, ← odd_count_cons, Nat.not_odd_iff_even]
    rw [List.cons_append, cutCommentFrom_cons, cutCommentFrom_cons, ih hopen]

/-- White space at the end of a line is read, or it is part of the comment. -/
theorem cutCommentFrom_append_blank {gap : List Char} (hgap : ∀ c ∈ gap, isBlank c = true)
    (quoted : Bool) (cs : List Char) :
    cutCommentFrom quoted (cs ++ gap) = cutCommentFrom quoted cs ++ gap ∨
      cutCommentFrom quoted (cs ++ gap) = cutCommentFrom quoted cs := by
  induction cs generalizing quoted with
  | nil =>
    refine .inl (cutCommentFrom_of_forall (fun c hc heq => ?_) quoted)
    have hblank := hgap c hc
    rw [heq] at hblank
    cases hblank
  | cons c cs ih =>
    rw [List.cons_append, cutCommentFrom_cons, cutCommentFrom_cons]
    split
    · exact .inr rfl
    · exact (ih _).imp (fun h => by rw [h, List.cons_append]) fun h => by rw [h]

/-! ## White space at the ends -/

/-- Trimming leaves quoted number signs quoted. -/
theorem signsQuoted_trimChars (h : SignsQuoted false cs) : SignsQuoted false (trimChars cs) := by
  obtain ⟨a, b, hparts, ha, -⟩ := exists_trimChars_parts cs
  rw [hparts] at h
  refine h.of_append fun hquote => ?_
  exact absurd (ha _ hquote) (by decide)

/-! ## Lower case -/

/-- Characters that are no marks may stand in front. -/
theorem signsQuoted_append {l : List Char} (hl : ∀ d ∈ l, ¬ IsMark d) {quoted : Bool}
    (h : SignsQuoted quoted cs) : SignsQuoted quoted (l ++ cs) := by
  induction l with
  | nil => exact h
  | cons d l ih =>
    obtain ⟨hd, hl⟩ := List.forall_mem_cons.1 hl
    simp only [IsMark, not_or] at hd
    obtain ⟨-, hsign, hquote⟩ := hd
    rw [List.cons_append, signsQuoted_cons, beq_false_of_ne hquote, Bool.xor_false]
    exact ⟨fun h => absurd h hsign, ih hl⟩

/-- Quotes and number signs stay where they are among the letters that are lowered. -/
theorem signsQuoted_lowerFrom {quoted : Bool} (h : SignsQuoted quoted cs) (before : Bool) :
    SignsQuoted quoted (lowerFrom before cs) := by
  induction cs generalizing quoted before with
  | nil => exact h
  | cons c cs ih =>
    obtain ⟨l, hl, heq⟩ := lowerFrom_cons before c cs
    obtain ⟨hsign, hcs⟩ := signsQuoted_cons.1 h
    rw [heq]
    by_cases hmark : IsMark c
    · rw [hl.mark hmark, List.singleton_append]
      exact signsQuoted_cons.2 ⟨hsign, ih hcs _⟩
    · have hquote : (c == '"') = false := beq_false_of_ne fun hc => hmark (.inr (.inr hc))
      rw [hquote, Bool.xor_false] at hcs
      exact signsQuoted_append (hl.letter hmark) (ih hcs _)

end HouseRules.Text
