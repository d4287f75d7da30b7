import HouseRules.Game.Reader
import HouseRules.Proofs.Text.Words

/-!
# Documents under their names

The name of a deck or a board goes two ways. A text is added under its name, of which the library
lowers the ASCII letters. The rules name it on a line, all of which is lowered when the rules are
read, and what follows the keyword is looked up (`Document.requireParams_of_firstNames`). The ways
meet where every character of the name outside ASCII is its own lower case, and then a game is
compiled from the documents that were added under the name (`Game.compiled_from_added`). Otherwise
these are not found by their name, whatever else is: É is kept as it is and looked up as é.

Reference: `PluginLibrary.add_text`, `GameRules.compile` (specification 6, E5).
-/

namespace HouseRules

/-! ## What the rules name -/

namespace Document

variable {d : Document} {text keyword name : String}

/-- The first line of a text that starts with a keyword consists of the keyword, in either case, and
a name, but for white space and a comment. -/
def FirstNames (text keyword name : String) : Prop :=
  ∃ before line after word, Text.lines text = before ++ line :: after ∧
    (∀ l ∈ before, Text.firstWord (normalLine true l) ≠ keyword) ∧
    Text.words (Text.cutComment line) = [word, name] ∧ Text.lowercase word = keyword

/-- Whether a text is one word, and without a comment. -/
def isName (s : String) : Bool :=
  !s.toList.isEmpty && s.toList.all fun c => !Text.isBlank c && c != '#'

/-- A text is a name if it is not empty and none of its characters is white space or a number
sign. -/
theorem isName_iff {s : String} :
    isName s = true ↔ s.toList ≠ [] ∧ ∀ c ∈ s.toList, Text.isBlank c = false ∧ c ≠ '#' := by
  simp [isName]

/-- Two of them with a space between are the words of a line. -/
theorem words_of_names (hkeyword : isName keyword = true) (hname : isName name = true) :
    Text.words (Text.cutComment (keyword ++ " " ++ name)) = [keyword, name] := by
  rw [isName_iff] at hkeyword hname
  have hline : (keyword ++ " " ++ name).toList = keyword.toList ++ ' ' :: name.toList := by
    simp [String.toList_append]
  have hsign : ∀ c ∈ keyword.toList ++ ' ' :: name.toList, c ≠ '#' := by
    intro c hc
    rcases List.mem_append.1 hc with hc | hc
    · exact (hkeyword.2 c hc).2
    · rcases List.mem_cons.1 hc with rfl | hc
      · decide
      · exact (hname.2 c hc).2
  rw [Text.words, Text.cutComment, String.toList_ofList, hline, Text.cutCommentFrom_of_forall hsign,
    Text.wordsOf_append_blank rfl, Text.wordsOf_word (fun c hc => (hkeyword.2 c hc).1) hkeyword.1,
    Text.wordsOf_word (fun c hc => (hname.2 c hc).1) hname.1]
  simp

/-- Such a line names what follows the keyword. -/
theorem firstNames_of_line {before after : List String} (hkeyword : isName keyword = true)
    (hcase : Text.lowercase keyword = keyword) (hname : isName name = true)
    (hlines : Text.lines text = before ++ (keyword ++ " " ++ name) :: after)
    (hbefore : ∀ l ∈ before, Text.firstWord (normalLine true l) ≠ keyword) :
    FirstNames text keyword name :=
  ⟨before, _, after, keyword, hlines, hbefore, words_of_names hkeyword hname, hcase⟩

/-- A keyword is found on the first line that starts with it. -/
theorem find?_of_lines {before after : List String} {line : String}
    (h : d.lines = before ++ line :: after) (hbefore : ∀ l ∈ before, Text.firstWord l ≠ keyword)
    (hline : Text.firstWord line = keyword) : d.find? keyword = some before.length := by
  have hnone : (before.zipIdx.filter fun x => Text.firstWord x.1 == keyword) = [] :=
    List.filter_eq_nil_iff.2 fun x hx => by
      simpa using hbefore x.1 (List.fst_mem_of_mem_zipIdx hx)
  rw [find?, findFrom?, positions, h, List.zipIdx_append, List.filter_append, hnone,
    List.nil_append, List.zipIdx_cons, List.filter_cons_of_pos (by simpa using hline),
    List.map_cons, List.find?_cons_of_pos (by simp), Nat.zero_add]

/-- What follows it there is what it takes. -/
theorem requireParams_of_lines {before after : List String} {line : String}
    (h : d.lines = before ++ line :: after) (hbefore : ∀ l ∈ before, Text.firstWord l ≠ keyword)
    (hline : Text.firstWord line = keyword) (hne : Text.afterFirstWord line ≠ "") :
    d.requireParams keyword = .ok (Text.afterFirstWord line) := by
  have hget : d.lines[before.length]? = some line := by simp [h]
  refine requireParams_ok.2 ⟨?_, hne⟩
  rw [params?, find?_of_lines h hbefore hline, Option.map_some, paramsAt, hget]

/-- The rules take the name in lower case. -/
theorem requireParams_of_firstNames (hd : d.lines = normalLines true text)
    (h : FirstNames text keyword name) : d.requireParams keyword = .ok (Text.lowercase name) := by
  obtain ⟨before, line, after, word, hlines, hbefore, hwords, rfl⟩ := h
  obtain ⟨hfirst, hparams, hne, hne'⟩ := normalLine_of_words hwords
  -- A line with a word is not blank.
  have hkept : (Text.trim (Text.cutComment line) != "") = true := by
    have hempty : Text.firstWord (Text.lowercase "") = "" := by decide +kernel
    refine bne_iff_ne.2 fun heq => hne ?_
    rw [← hfirst, normalLine, if_pos rfl, heq, hempty]
  rw [normalLines, hlines, List.filter_append, List.filter_cons, if_pos hkept, List.map_append,
    List.map_cons] at hd
  rw [← hparams]
  refine requireParams_of_lines hd (fun l' hl' => ?_) hfirst (by rwa [hparams])
  obtain ⟨l, hl, rfl⟩ := List.mem_map.1 hl'
  exact hbefore l (List.mem_of_mem_filter hl)

end Document

/-! ## What the library holds -/

namespace Library

variable {l l' : Library} {kind : DocumentKind} {name text : String} {d : Document}

/-- Storing a document leaves those of another kind or name. -/
theorem stored?_insert_of_ne (h : ¬ (d.kind = kind ∧ d.name = name)) :
    (l.insert d).stored? kind name = l.stored? kind name := by
  have hd : (d.kind == kind && d.name == name) = false := by simpa using h
  simp only [stored?, insert, List.find?_cons, hd, List.find?_filter]
  refine List.find?_congr fun e _ => ?_
  cases he : (e.kind == kind && e.name == name) with
  | false => simp
  | true =>
    simp only [Bool.and_eq_true, beq_iff_eq] at he
    have hne : ¬ (e.kind == d.kind && e.name == d.name) = true := fun heq => by
      simp only [Bool.and_eq_true, beq_iff_eq] at heq
      exact h ⟨heq.1.symm.trans he.1, heq.2.symm.trans he.2⟩
    simp [hne]

/-- A text that has a directive is stored under its kind and its name in the lower case of ASCII. -/
theorem addText_ok : l.addText kind name text = .ok l' ↔
    ∃ d, Document.parse kind (Text.asciiLower name) text = .ok d ∧ l' = l.insert d := by
  rw [addText, bind_ok]
  exact exists_congr fun d => and_congr_right fun _ => by rw [pure_ok, eq_comm]

/-- What a deck and a board that were added leave of the decks and boards that are found. -/
theorem get?_added (l : Library) (name : String) (deckLines boardLines : List String) :
    let added := (l.insert ⟨.deck, Text.asciiLower name, deckLines⟩).insert
      ⟨.board, Text.asciiLower name, boardLines⟩
    added.get? .deck (Text.lowercase name) =
        (if Text.lowercase name = Text.asciiLower name then
          some ⟨.deck, Text.asciiLower name, deckLines⟩
        else l.get? .deck (Text.lowercase name)) ∧
      added.get? .board (Text.lowercase name) =
        if Text.lowercase name = Text.asciiLower name then
          some ⟨.board, Text.asciiLower name, boardLines⟩
        else l.get? .board (Text.lowercase name) := by
  simp only [get?, Text.asciiLower_lowercase]
  by_cases h : Text.lowercase name = Text.asciiLower name
  · rw [if_pos h, if_pos h, h]
    exact ⟨(stored?_insert_of_ne (by simp)).trans (stored?_insert_self l _),
      stored?_insert_self _ ⟨.board, Text.asciiLower name, boardLines⟩⟩
  · rw [if_neg h, if_neg h]
    constructor <;>
    · rw [stored?_insert_of_ne fun h' => h h'.2.symm, stored?_insert_of_ne fun h' => h h'.2.symm]

end Library

/-! ## What a game is compiled from -/

namespace Game

variable {l withDeck withBoth m : Library} {name deckText boardText rulesName rulesText : String}
  {rules : Document}

/-- The documents that a game is compiled from, by the names on its lines. -/
theorem compile_eq {deckName boardName : String} (hrules : m.get? .rules rulesName = some rules)
    (hdeck : rules.requireParams "deck" = .ok deckName)
    (hboard : rules.requireParams "board" = .ok boardName) :
    compile m rulesName = (do
      let deck ← m.require .deck deckName rules.identity
      let board ← m.require .board boardName rules.identity
      ofDocuments rules deck board (m.get? .brief rules.name)) := by
  have hrequire : m.require .rules rulesName "plugin library" = .ok rules := by
    rw [Library.require, hrules, orFail_some]
  simp only [compile, hrequire, hdeck, hboard, bind, Except.bind]

/-- **Names of decks and boards.** Let a deck and a board be added to a library under a name, and
let the rules of a game, in a library that has the same documents but for rules, name both on their
first `deck` line and their first `board` line. If every character of the name outside ASCII is its
own lower case, the game is compiled from the two documents that were added. Otherwise they are not
found: the game is compiled from what the library held before under the name in lower case, and it
is refused if there is nothing. -/
theorem compiled_from_added (hdeck : l.addText .deck name deckText = .ok withDeck)
    (hboard : withDeck.addText .board name boardText = .ok withBoth)
    (hsame : ∀ kind n, kind ≠ .rules → m.get? kind n = withBoth.get? kind n)
    (hrules : m.get? .rules rulesName = some rules)
    (hread : rules.lines = Document.normalLines true rulesText)
    (hdeckLine : Document.FirstNames rulesText "deck" name)
    (hboardLine : Document.FirstNames rulesText "board" name) :
    ∃ deck board, Document.parse .deck (Text.asciiLower name) deckText = .ok deck ∧
      Document.parse .board (Text.asciiLower name) boardText = .ok board ∧
      (Text.lowercase name = Text.asciiLower name ↔
        ∀ c ∈ name.toList, 0x80 ≤ c.toNat → c ≠ '\u0130' ∧ Text.lowerChar c = c) ∧
      (Text.lowercase name = Text.asciiLower name →
        compile m rulesName = ofDocuments rules deck board (m.get? .brief rules.name)) ∧
      (Text.lowercase name ≠ Text.asciiLower name →
        compile m rulesName = do
          let deck ← l.require .deck (Text.lowercase name) rules.identity
          let board ← l.require .board (Text.lowercase name) rules.identity
          ofDocuments rules deck board (m.get? .brief rules.name)) := by
  obtain ⟨deck, hparse, rfl⟩ := Library.addText_ok.1 hdeck
  obtain ⟨board, hparse', rfl⟩ := Library.addText_ok.1 hboard
  have hcompile := compile_eq hrules (Document.requireParams_of_firstNames hread hdeckLine)
    (Document.requireParams_of_firstNames hread hboardLine)
  refine ⟨deck, board, hparse, hparse', Text.lowercase_eq_asciiLower_iff name, ?_⟩
  obtain ⟨-, rfl⟩ := Document.parse_ok.1 hparse
  obtain ⟨-, rfl⟩ := Document.parse_ok.1 hparse'
  obtain ⟨hfound, hfound'⟩ := Library.get?_added l name
    (Document.normalLines true deckText) (Document.normalLines true boardText)
  have hdeck := (hsame .deck (Text.lowercase name) nofun).trans hfound
  have hboard := (hsame .board (Text.lowercase name) nofun).trans hfound'
  constructor
  · intro h
    rw [hcompile, Library.require, Library.require, hdeck, hboard, if_pos h, if_pos h]
    rfl
  · intro h
    rw [hcompile, Library.require, Library.require, hdeck, hboard, if_neg h, if_neg h]
    rfl

/-- The rules of a game without moves, with a deck and a board of one name. -/
def soloRules (name : String) : String :=
  "\n".intercalate
    ["players 1", "deck" ++ " " ++ name, "board" ++ " " ++ name, "phase main", "end-phase"]

/-- A deck of one card. -/
def soloDeck : String := "size 1\nfaces a\ncards all"

/-- A board of one pile. -/
def soloBoard : String := "cardpile draw"

/-- A library with the rules. -/
def soloLibrary (name : String) : Library :=
  Library.empty.insert ⟨.rules, "solo", Document.normalLines true (soloRules name)⟩

/-- The rules name the deck and the board by the same name. -/
theorem soloRules_firstNames (hname : Document.isName name = true) :
    Document.FirstNames (soloRules name) "deck" name ∧
      Document.FirstNames (soloRules name) "board" name := by
  have hfeed : '\n' ∉ name.toList := fun hmem =>
    absurd ((Document.isName_iff.1 hname).2 _ hmem).1 (by decide)
  have hlines : Text.lines (soloRules name) =
      ["players 1", "deck" ++ " " ++ name, "board" ++ " " ++ name, "phase main", "end-phase"] :=
    Text.lines_intercalate (List.cons_ne_nil _ _) (by simp [String.toList_append, hfeed])
  have hplayers : Text.firstWord (Document.normalLine true "players 1") = "players" := by
    decide +kernel
  have hdeck : Document.isName "deck" = true ∧ Text.lowercase "deck" = "deck" := by decide +kernel
  have hboard : Document.isName "board" = true ∧ Text.lowercase "board" = "board" := by
    decide +kernel
  have hline : Text.firstWord (Document.normalLine true ("deck" ++ " " ++ name)) = "deck" :=
    (Document.normalLine_of_words (Document.words_of_names hdeck.1 hname)).1.trans hdeck.2
  constructor
  · have hfirst : Text.lines (soloRules name) = ["players 1"] ++ ("deck" ++ " " ++ name) :: _ :=
      hlines
    refine Document.firstNames_of_line hdeck.1 hdeck.2 hname hfirst fun l hl => ?_
    rw [List.mem_singleton.1 hl, hplayers]
    decide
  · have hsecond : Text.lines (soloRules name) =
        ["players 1", "deck" ++ " " ++ name] ++ ("board" ++ " " ++ name) :: _ := hlines
    refine Document.firstNames_of_line hboard.1 hboard.2 hname hsecond fun l hl => ?_
    rcases List.mem_cons.1 hl with rfl | hl
    · rw [hplayers]
      decide
    · rw [List.mem_singleton.1 hl, hline]
      decide

/-- The deck and the board can be added to the library with the rules, under any name. -/
theorem soloLibrary_addText (name : String) : ∃ withDeck withBoth,
    (soloLibrary name).addText .deck name soloDeck = .ok withDeck ∧
      withDeck.addText .board name soloBoard = .ok withBoth ∧ withBoth.get? .brief "solo" = none ∧
      withBoth.get? .rules "solo" =
        some ⟨.rules, "solo", Document.normalLines true (soloRules name)⟩ := by
  have hname : Text.asciiLower "solo" = "solo" := by decide +kernel
  refine ⟨_, _, Library.addText_ok.2 ⟨_, Document.parse_ok.2 ⟨by decide +kernel, rfl⟩, rfl⟩,
    Library.addText_ok.2 ⟨_, Document.parse_ok.2 ⟨by decide +kernel, rfl⟩, rfl⟩, ?_⟩
  simp only [Library.get?, hname, soloLibrary]
  constructor
  · iterate 3 refine (Library.stored?_insert_of_ne (by simp)).trans ?_
    rfl
  · iterate 2 refine (Library.stored?_insert_of_ne (by simp)).trans ?_
    exact Library.stored?_insert_self _ ⟨.rules, "solo", _⟩

/-- A name with a capital T is found, one with a capital É is not. -/
theorem solo_compiled_from_added :
    (∃ withDeck withBoth g,
      (soloLibrary "Tété").addText .deck "Tété" soloDeck = .ok withDeck ∧
        withDeck.addText .board "Tété" soloBoard = .ok withBoth ∧
        compile withBoth "solo" = .ok g) ∧
      ∃ withDeck withBoth, (soloLibrary "É").addText .deck "É" soloDeck = .ok withDeck ∧
        withDeck.addText .board "É" soloBoard = .ok withBoth ∧
        compile withBoth "solo" = .error (.unresolvedReference "deck" "é" "rules.solo") := by
  constructor
  · obtain ⟨withDeck, withBoth, hdeck, hboard, hbrief, hrules⟩ := soloLibrary_addText "Tété"
    obtain ⟨hdeckLine, hboardLine⟩ := @soloRules_firstNames "Tété" (by decide +kernel)
    obtain ⟨deck, board, hparse, hparse', -, hfound, -⟩ := compiled_from_added hdeck hboard
      (fun _ _ _ => rfl) hrules rfl hdeckLine hboardLine
    obtain ⟨-, rfl⟩ := Document.parse_ok.1 hparse
    obtain ⟨-, rfl⟩ := Document.parse_ok.1 hparse'
    obtain ⟨g, hg⟩ := Succeeds.of_isOk (show (ofDocuments
      ⟨.rules, "solo", Document.normalLines true (soloRules "Tété")⟩
      ⟨.deck, Text.asciiLower "Tété", Document.normalLines true soloDeck⟩
      ⟨.board, Text.asciiLower "Tété", Document.normalLines true soloBoard⟩ none).isOk = true by
        decide +kernel)
    refine ⟨withDeck, withBoth, g, hdeck, hboard, (hfound (by decide +kernel)).trans ?_⟩
    rw [hbrief]
    exact hg
  · obtain ⟨withDeck, withBoth, hdeck, hboard, -, hrules⟩ := soloLibrary_addText "É"
    obtain ⟨hdeckLine, hboardLine⟩ := @soloRules_firstNames "É" (by decide +kernel)
    obtain ⟨-, -, -, -, -, -, hlost⟩ := compiled_from_added hdeck hboard
      (fun _ _ _ => rfl) hrules rfl hdeckLine hboardLine
    have hname : Text.lowercase "É" = "é" ∧ Text.asciiLower "É" = "É" := by decide +kernel
    have hnone : (soloLibrary "É").get? .deck "é" = none := by decide +kernel
    refine ⟨withDeck, withBoth, hdeck, hboard, (hlost (by decide +kernel)).trans ?_⟩
    rw [hname.1, Library.require, hnone]
    rfl

end Game

end HouseRules
