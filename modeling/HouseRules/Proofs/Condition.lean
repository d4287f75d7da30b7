import HouseRules.Condition.Writer
import HouseRules.Proofs.Token

/-!
# Statements are read as they are written

A statement of a condition is written as words (`Statement.words`), and a line in which white space
stands between these words is read as the statement again (`Statement.read_of_spaced`). The words
tell the parts of a statement apart: no question starts with `not`, and none of its words is a
connective (`Question.ofWord?_words`), though a text may be `"and"` in its quotes. A condition that
is named like a verb would be taken for the verb, and one named `not` or like a connective for that,
so these cannot be written; nor can an empty list of values for a condition, which looks like none.
And an alias named like a word that is written would be replaced in its place.

Reference: `statements.parse_statement` (specification 4.2, E2.3).
-/

namespace HouseRules

variable {s : Scope}

/-! ## Words that are not connectives -/

/-- A connective is read from its own word only. -/
theorem Connective.eq_word {word : String} {c : Connective} (h : ofWord? word = some c) :
    word = c.word := by
  unfold ofWord? at h
  split at h <;> cases h <;> rfl

/-- The word of a connective is one token. -/
theorem Connective.isToken_word (c : Connective) : Text.IsToken c.word := by
  cases c <;> exact Text.IsPlain.isToken (by decide) (by decide)

/-- The keyword of a verb is one token. -/
theorem Verb.isToken_keyword (v : Verb) : Text.IsToken v.keyword := by
  cases v <;> exact Text.IsPlain.isToken (by decide) (by decide)

/-- Connectives are no parameters. -/
theorem Token.read_connective (c : Connective) (component : String) :
    read s component c.word = .error (s.unexpected "parameter" c.word) := by
  have hstart : StartsWithLetter c.word := by
    cases c <;> exact ⟨_, rfl, rfl, by decide, by decide, by decide⟩
  have hkind : Kind.ofWord? c.word = none := by cases c <;> rfl
  have hdot : '.' ∉ c.word.toList := by cases c <;> decide
  simp only [read, hstart.unquote?, hstart.integer?, hkind, Text.splitOnce_eq_none hdot]

/-- So no written parameter is a connective. -/
theorem Token.ofWord?_write (hnames : s.layout.Named) (hscope : s.Declared) {t : Token}
    (h : t.Writable s) : Connective.ofWord? (t.write s) = none := by
  cases hword : Connective.ofWord? (t.write s) with
  | none => rfl
  | some c =>
    have hread := read_write hnames hscope h ""
    rw [Connective.eq_word hword, read_connective] at hread
    cases hread

/-! ## Lists of parameters -/

namespace Token

variable {ts : List Token}

/-- Tokens that can be written are read back from what is written, one by one. -/
theorem readAll_write (hnames : s.layout.Named) (hscope : s.Declared)
    (h : ∀ t ∈ ts, t.Writable s) (component : String) :
    readAll s component (ts.map (write s)) = .ok ts := by
  rw [readAll, mapM_ok, List.forall₂_map_left_iff, List.forall₂_same]
  exact fun t ht => read_write hnames hscope (h t ht) component

/-- The parameters that a verb admits are read back. -/
theorem readParameters_write (hnames : s.layout.Named) (hscope : s.Declared) {verb : Verb}
    (hadmits : verb.Admits ts) (h : ∀ t ∈ ts, t.Writable s) (component : String) :
    readParameters s component verb (ts.map (write s)) = .ok ts := by
  rw [readParameters, if_pos (by rw [List.length_map]; exact hadmits.accepts), mapM_ok,
    List.forall₂_iff_get]
  refine ⟨by rw [List.length_zipIdx, List.length_map], fun i hi hi' => ?_⟩
  obtain ⟨kind, hkind, hsatisfies⟩ := hadmits.satisfies i ts[i] (List.getElem?_eq_getElem hi')
  have hread := read_write hnames hscope (h ts[i] (List.getElem_mem hi')) component
  simp only [List.get_eq_getElem, List.getElem_zipIdx, List.getElem_map, Nat.zero_add, readFor,
    hread, hkind]
  exact if_pos hsatisfies

end Token

/-! ## Questions -/

/-- A question can be written: a call of a verb that answers yes or no and admits the parameters, or
a condition that is not taken for anything else, with some values or none. -/
inductive Question.Writable (s : Scope) : Question → Prop
  | call {verb : Verb} {parameters : List Token} : verb.returnsBool = true →
    verb.Admits parameters → (∀ t ∈ parameters, t.Writable s) →
    Writable s (.call verb parameters)
  | condition {id : ConditionId} {overrides : Option (List Token)} :
    id.index < s.conditions.length → Verb.ofWord? (s.conditionName id) = none →
    s.conditionName id ∉ ["not", "and", "or", "xor"] → overrides ≠ some [] →
    (∀ t ∈ overrides.getD [], t.Writable s) → Writable s (.condition id overrides)

namespace Question

variable {q : Question}

/-- Each word that a question is written with is one token. -/
theorem isToken_words (hnames : s.layout.Named) (hscope : s.Declared) (hquotes : s.Unquoted)
    (h : q.Writable s) : ∀ w ∈ q.words s, Text.IsToken w := by
  cases h with
  | call _ _ hparameters =>
    refine List.forall_mem_cons.2 ⟨Verb.isToken_keyword _, List.forall_mem_map.2 fun t ht => ?_⟩
    exact Token.isToken_write hnames hscope hquotes (hparameters t ht)
  | condition hid _ _ _ hoverrides =>
    refine List.forall_mem_cons.2 ⟨Scope.isToken_conditionName hscope hquotes hid,
      List.forall_mem_map.2 fun t ht => ?_⟩
    exact Token.isToken_write hnames hscope hquotes (hoverrides t ht)

/-- No word of a question is a connective. -/
theorem ofWord?_words (hnames : s.layout.Named) (hscope : s.Declared) (h : q.Writable s) :
    ∀ w ∈ q.words s, Connective.ofWord? w = none := by
  cases h with
  | @call verb _ _ _ hparameters =>
    have hverb : Connective.ofWord? verb.keyword = none := by cases verb <;> rfl
    refine List.forall_mem_cons.2 ⟨hverb, List.forall_mem_map.2 fun t ht => ?_⟩
    exact Token.ofWord?_write hnames hscope (hparameters t ht)
  | @condition id _ _ _ hname _ hoverrides =>
    have hnone : Connective.ofWord? (s.conditionName id) = none := by
      cases hword : Connective.ofWord? (s.conditionName id) with
      | none => rfl
      | some c =>
        rw [Connective.eq_word hword] at hname
        exact absurd (by cases c <;> decide) hname
    refine List.forall_mem_cons.2 ⟨hnone, List.forall_mem_map.2 fun t ht => ?_⟩
    exact Token.ofWord?_write hnames hscope (hoverrides t ht)

/-- No question starts with `not`. -/
theorem head?_words_ne (h : q.Writable s) : (q.words s).head? ≠ some "not" := by
  cases h with
  | @call verb =>
    intro heq
    have hnot : verb.keyword ≠ "not" := by cases verb <;> decide
    exact hnot (Option.some.inj heq)
  | condition _ _ hname =>
    intro heq
    rw [words, List.head?_cons, Option.some.injEq] at heq
    exact hname (heq ▸ List.mem_cons_self)

/-- A question is read back from its words. -/
theorem read_words (hnames : s.layout.Named) (hscope : s.Declared) (h : q.Writable s)
    (condition line : String) :
    ∃ head rest, q.words s = head :: rest ∧ read s condition line head rest = .ok q := by
  cases h with
  | @call verb parameters hbool hadmits hparameters =>
    refine ⟨_, _, rfl, ?_⟩
    rw [read, Verb.ofWord?_keyword]
    simp only [hbool, if_true, Token.readParameters_write hnames hscope hadmits hparameters]
    rfl
  | @condition id overrides hid hverb hname hempty hoverrides =>
    refine ⟨_, _, rfl, ?_⟩
    rw [read, hverb]
    simp only [Scope.condition?_conditionName hscope.conditions hid]
    cases overrides with
    | none => rfl
    | some ts =>
      have hsome : (ts.map (Token.write s)).isEmpty = false := by
        rw [List.isEmpty_eq_false_iff, ne_eq, List.map_eq_nil_iff]
        exact fun hnil => hempty (congrArg some hnil)
      have hread := Token.readAll_write hnames hscope hoverrides condition
      rw [Option.getD_some] at hread
      simp only [Option.getD_some, hsome, hread]
      rfl

end Question

/-! ## Statements -/

/-- The tokens of a line are its words where no alias is named like one of them. -/
theorem Scope.tokens_of_spaced {words : List String} {line : String}
    (hline : Text.Spaced words line.toList) (hwords : ∀ w ∈ words, Text.IsToken w)
    (haliases : ∀ a ∈ s.aliases, a.name ∉ words) : s.tokens line = words := by
  have hself : ∀ w ∈ words, s.replacement w = [w] := by
    intro w hw
    have hnone : s.aliases.find? (·.name == w) = none := by
      rw [List.find?_eq_none]
      intro a ha heq
      exact haliases a ha (beq_iff_eq.1 heq ▸ hw)
    rw [replacement, hnone]
  rw [tokens, Text.tokens_of_spaced hline hwords, List.flatMap_congr hself, List.flatMap_singleton']

namespace Statement

/-- The parts of words that start with no second `not`. -/
theorem part_eq (inverted : Bool) {words : List String} (h : words.head? ≠ some "not")
    {connective : Option Connective}
    (hlast : words.getLast?.bind Connective.ofWord? = connective) :
    part ((if inverted then ["not"] else []) ++ words) =
      (inverted, if connective.isSome then words.dropLast else words, connective) := by
  cases inverted with
  | true =>
    show part ("not" :: words) = _
    simp only [part, hlast]
    cases connective <;> rfl
  | false =>
    show part words = _
    have hnot : ∀ rest, words = "not" :: rest → False := by
      rintro rest rfl
      exact h rfl
    simp only [part, hlast]
    cases connective <;> rfl

/-- The words of a statement fall into its parts. -/
theorem part_words (hnames : s.layout.Named) (hscope : s.Declared) {statement : Statement}
    (h : statement.question.Writable s) :
    part (statement.words s) =
      (statement.inverted, statement.question.words s, statement.connective) := by
  obtain ⟨inverted, q, connective⟩ := statement
  have hhead := Question.head?_words_ne h
  cases connective with
  | none =>
    have hlast : (q.words s).getLast?.bind Connective.ofWord? = none := by
      rw [Option.bind_eq_none_iff]
      exact fun w hw => Question.ofWord?_words hnames hscope h w (List.mem_of_getLast? hw)
    rw [words, Option.map_none, Option.toList_none, List.append_nil, part_eq inverted hhead hlast]
    rfl
  | some c =>
    have hhead' : (q.words s ++ [c.word]).head? ≠ some "not" := by
      obtain ⟨head, rest, hwords, -⟩ := Question.read_words hnames hscope h "" ""
      rw [hwords] at hhead ⊢
      exact hhead
    have hlast : (q.words s ++ [c.word]).getLast?.bind Connective.ofWord? = some c := by
      rw [List.getLast?_concat, Option.bind_some, Connective.ofWord?_word]
    rw [words, Option.map_some, Option.toList_some, List.append_assoc,
      part_eq inverted hhead' hlast, List.dropLast_concat]
    rfl

/-- A line in which white space stands between the words of a statement is read as the statement. -/
theorem read_of_spaced {board : Document} (hboard : Layout.compile board = .ok s.layout)
    (hscope : s.Declared) (hquotes : s.Unquoted) {statement : Statement}
    (h : statement.question.Writable s)
    (haliases : ∀ a ∈ s.aliases, a.name ∉ statement.words s) {line : String}
    (hline : Text.Spaced (statement.words s) line.toList) (condition : String) :
    Statement.read s condition line = .ok statement := by
  have hnames := Layout.named_of_compile hboard
  have htokens : ∀ w ∈ statement.words s, Text.IsToken w := by
    intro w hw
    rw [words, List.mem_append, List.mem_append] at hw
    rcases hw with (hnot | hquestion) | hconnective
    · split at hnot
      · rw [List.mem_singleton.1 hnot]
        exact Text.IsPlain.isToken (by decide) (by decide)
      · cases hnot
    · exact Question.isToken_words hnames hscope hquotes h w hquestion
    · rw [Option.mem_toList, Option.map_eq_some_iff] at hconnective
      obtain ⟨c, -, rfl⟩ := hconnective
      exact c.isToken_word
  obtain ⟨head, rest, hwords, hquestion⟩ := Question.read_words hnames hscope h condition line
  rw [Statement.read, Scope.tokens_of_spaced hline htokens haliases, part_words hnames hscope h,
    hwords]
  simp only [hquestion]
  rfl

/-- A scope with a condition and a phase. -/
def fullAndMain : Scope :=
  ⟨"rules.demo", ⟨"table", [⟨"hand", { owner := .player }⟩, ⟨"discard", {}⟩], none, none, none,
    [⟨1⟩], [⟨0⟩]⟩, [], [], [], ["full"], ["main"]⟩

/-- A statement whose texts look like other words. -/
def notFull : Statement where
  inverted := true
  question := .condition ⟨0⟩ (some [.pile ⟨⟨0⟩, .next⟩, .integer (-3), .text "not and", .phase ⟨0⟩])
  connective := some .or

/-- Any white space may stand between the words, and a text in quotes keeps its own. -/
theorem notFull_read_of_spaced :
    Statement.read fullAndMain "demo" "not\tfull  pile.hand@next -3 \"not and\" phase.main or" =
      .ok notFull := by
  have hboard : Layout.compile
      ⟨.board, "table", ["cardpile hand", "owner player", "cardpile discard"]⟩ =
        .ok fullAndMain.layout := by decide +kernel
  have hscope : Graph.readScope ⟨.rules, "demo", []⟩ fullAndMain.layout []
      ⟨[], [], [⟨0, "full", []⟩], [⟨3, "main", []⟩]⟩ = .ok fullAndMain := by decide +kernel
  have hquotes : fullAndMain.Unquoted := ⟨by decide, by decide, by decide⟩
  have hwritable : notFull.question.Writable fullAndMain := by
    refine .condition (by decide) (by decide) (by decide) (by decide) ?_
    have hhand : fullAndMain.layout.Declares ⟨0⟩ := ⟨by decide, by decide⟩
    have hnumber : (Token.integer (-3)).Literal := And.intro (by decide) (by decide)
    have htext : '"' ∉ "not and".toList := by decide
    have hphase : 0 < fullAndMain.phases.length := by decide
    intro t ht
    fin_cases ht
    · exact ⟨hhand, trivial⟩
    · exact ⟨trivial, hnumber⟩
    · exact ⟨trivial, htext⟩
    · exact ⟨hphase, trivial⟩
  have hline : Text.Spaced (notFull.words fullAndMain)
      "not\tfull  pile.hand@next -3 \"not and\" phase.main or".toList :=
    .word "not" (c := '\t') rfl <| .word "full" (c := ' ') rfl <| .blank rfl <|
      .word "pile.hand@next" (c := ' ') rfl <| .word "-3" (c := ' ') rfl <|
        .word "\"not and\"" (c := ' ') rfl <| .word "phase.main" (c := ' ') rfl <| .last "or"
  exact read_of_spaced hboard (Scope.declared_of_readScope hscope) hquotes hwritable (by decide)
    hline "demo"

end Statement

end HouseRules
