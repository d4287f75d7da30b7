/-!
# White space, pieces and words

Rule files are read by lines, a line by its words. This module fixes what white space is (the
Unicode property `White_Space`), how text is cut at a class of characters (`pieces`), and how a
line falls into words (`words`). The work is done on lists of characters; the functions on `String`
are the same cut read back as strings.

`pieces` folds from the right, so that a text of any length is cut without deep recursion, and loses
no character but the separators: joining the pieces with the characters that cut them gives the text
back.

Reference: the cutting of lines in `RuleDocument` and `tokens.split_line` (specification E2).
-/

namespace HouseRules.Text

/-- White space: the Unicode property `White_Space`. -/
def isBlank (c : Char) : Bool :=
  let n := c.toNat
  (0x09 ≤ n && n ≤ 0x0D) || n == 0x20 || n == 0x85 || n == 0xA0 || n == 0x1680 ||
    (0x2000 ≤ n && n ≤ 0x200A) || n == 0x2028 || n == 0x2029 || n == 0x202F || n == 0x205F ||
    n == 0x3000

/-- Puts a character in front of the first piece. -/
def attach (c : Char) : List (List Char) → List (List Char)
  | [] => [[c]]
  | piece :: rest => (c :: piece) :: rest

/-- The pieces between the characters that satisfy `cut`: one more than there are such
characters. -/
def pieces (cut : Char → Bool) (cs : List Char) : List (List Char) :=
  cs.foldr (fun c acc => if cut c then [] :: acc else attach c acc) [[]]

@[simp] theorem pieces_nil (cut : Char → Bool) : pieces cut [] = [[]] := rfl

/-- A cut starts a new piece. -/
theorem pieces_cons_of_cut {cut : Char → Bool} {c : Char} (h : cut c = true) (cs : List Char) :
    pieces cut (c :: cs) = [] :: pieces cut cs := by
  simp [pieces, h]

/-- A character that is no cut goes in front of the first piece. -/
theorem pieces_cons_of_not_cut {cut : Char → Bool} {c : Char} (h : cut c = false)
    (cs : List Char) : pieces cut (c :: cs) = attach c (pieces cut cs) := by
  simp [pieces, h]

/-- Drops the white space at the front. -/
def trimStart (cs : List Char) : List Char := cs.dropWhile isBlank

/-- Drops the white space at both ends. -/
def trimChars (cs : List Char) : List Char := (trimStart (trimStart cs).reverse).reverse

/-- The words of a list of characters: its longest runs without white space. -/
def wordsOf (cs : List Char) : List (List Char) :=
  (pieces isBlank cs).filter fun piece => !piece.isEmpty

/-- No word is empty. -/
theorem ne_nil_of_mem_wordsOf {cs w : List Char} (h : w ∈ wordsOf cs) : w ≠ [] := by
  have := (List.mem_filter.1 h).2
  intro hw
  simp [hw] at this

/-- The text without the white space at both ends. -/
def trim (s : String) : String := String.ofList (trimChars s.toList)

/-- The words of a line. -/
def words (s : String) : List String := (wordsOf s.toList).map String.ofList

/-- The first word of a line, empty if the line has none. -/
def firstWord (s : String) : String := (words s).headD ""

/-- What follows the first word of a line, without white space at both ends. -/
def afterFirstWord (s : String) : String :=
  String.ofList (trimChars ((trimStart s.toList).dropWhile fun c => !isBlank c))

/-- The lines of a text, cut at each line feed. -/
def lines (s : String) : List String := (pieces (· == '\n') s.toList).map String.ofList

/-- The pieces of a line between commas, each without white space at both ends. -/
def fields (s : String) : List String :=
  (pieces (· == ',') s.toList).map fun piece => String.ofList (trimChars piece)

/-- What stands before and after the first occurrence of `c`, if there is one. -/
def splitOnce (c : Char) (s : String) : Option (String × String) :=
  match s.toList.dropWhile (· != c) with
  | [] => none
  | _ :: after => some (String.ofList (s.toList.takeWhile (· != c)), String.ofList after)

/-- The ASCII letters in lower case, all else unchanged. -/
def asciiLower (s : String) : String := String.ofList (s.toList.map Char.toLower)

end HouseRules.Text
