import HouseRules.Text.LetterCase

/-!
# Lowering the case of a text

The full lower-case mapping of the Unicode standard. Every character is lowered on its own but for
two rules: U+0130 becomes an `i` followed by a combining dot, and a capital sigma becomes the final
form `ς` where it ends a word. A sigma ends a word when, skipping the characters that case ignores,
a cased letter stands before it and none stands after it.

The walk over the text carries one bit of the past, whether the nearest letter before was cased, so
`lowercase` is one structural recursion.

Reference: the lower case in which `RuleDocument.parse` keeps its lines (specification 6, E2).
-/

namespace HouseRules.Text

/-- Characters that are skipped when a sigma looks for its neighbours. -/
def isCaseIgnorable (c : Char) : Bool := inRanges ignorableRanges c.toNat

/-- Letters that have a case. -/
def isCased (c : Char) : Bool := inRanges casedRanges c.toNat

/-- Whether the first character that case does not ignore is a cased letter. -/
def startsCased : List Char → Bool
  | [] => false
  | c :: cs => if isCaseIgnorable c then startsCased cs else isCased c

/-- Whether the nearest character that counts is cased, after reading `c` too. -/
def casedAfter (before : Bool) (c : Char) : Bool :=
  if isCaseIgnorable c then before else isCased c

/-- The lower case of a character that has one of its own, whatever stands around it. -/
def lowerChar (c : Char) : Char :=
  if c.toNat < 0x80 then c.toLower
  else
    match lowerRanges.find? (·.covers c.toNat) with
    | some r => Char.ofNat (Int.toNat (c.toNat + r.shift))
    | none => c

/-- Lowers a text whose past is known only by whether the nearest character that counts was
cased. -/
def lowerFrom (before : Bool) : List Char → List Char
  | [] => []
  | c :: cs =>
    let lowered :=
      if c == '\u0130' then ['i', '\u0307']
      else if c == 'Σ' then [if before && !startsCased cs then 'ς' else 'σ']
      else [lowerChar c]
    lowered ++ lowerFrom (casedAfter before c) cs

/-- The text in lower case. -/
def lowercase (s : String) : String :=
  if s.toList.all (·.toNat < 0x80) then String.ofList (s.toList.map Char.toLower)
  else String.ofList (lowerFrom false s.toList)

end HouseRules.Text
