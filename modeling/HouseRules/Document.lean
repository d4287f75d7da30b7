import HouseRules.Error
import HouseRules.Text.Lowercase
import HouseRules.Text.Quoted

/-!
# Rule documents

A rule document is the list of directives of one file. Reading a text drops comments and blank
lines, trims every line and lowers its case; a brief, which is prose, keeps its case. A line starts
with a keyword when that is its first word, so `action` never finds `end-action`.

The queries come in pairs: one that answers with an `Option`, and one that must succeed and names
the document and the keyword in its error. `Document.slice` and `Document.between` cut out a block
of lines as a document of the same name, so that errors inside the block still name the file.

Reference: `RuleDocument`, `DocumentKind` (specification 4.1, E2).
-/

namespace HouseRules

/-- The kinds of rule files. Reference: `DocumentKind`. -/
inductive DocumentKind where
  | rules
  | board
  | deck
  /-- Prose about a game, whose case is kept. -/
  | brief
  deriving Repr, DecidableEq, Inhabited

namespace DocumentKind

/-- Every kind. -/
def all : List DocumentKind := [.rules, .board, .deck, .brief]

/-- The word in front of a file name. -/
def keyword : DocumentKind → String
  | .rules => "rules"
  | .board => "board"
  | .deck => "deck"
  | .brief => "brief"

/-- The kind a word names, in ASCII letters of either case. -/
def ofWord? (word : String) : Option DocumentKind :=
  all.find? (·.keyword == Text.asciiLower word)

/-- Whether the case of letters is dropped when a document of this kind is read. -/
def ignoresCase : DocumentKind → Bool
  | .brief => false
  | _ => true

/-- The text without the ending `.txt`, if it has that ending. -/
def stem? (fileName : String) : Option String :=
  let cs := fileName.toList
  if ".txt".toList.isSuffixOf cs then some (String.ofList (cs.take (cs.length - 4))) else none

/-- The kind and the name in a file name of the form `kind.name.txt`. -/
def ofFileName? (fileName : String) : Option (DocumentKind × String) := do
  let stem ← stem? fileName
  let (word, name) ← Text.splitOnce '.' stem
  if name == "" then none
  let kind ← ofWord? word
  return (kind, Text.asciiLower name)

end DocumentKind

/-- Where two keywords stand in a document. Reference: `KeywordOrder`. -/
inductive KeywordOrder where
  | neither
  | onlyFirst
  | onlySecond
  | firstBeforeSecond
  | secondBeforeFirst
  | same
  deriving Repr, DecidableEq

/-- The directives of one rule file. Reference: `RuleDocument`. -/
structure Document where
  kind : DocumentKind
  name : String
  lines : List String
  deriving Repr, DecidableEq, Inhabited

namespace Document

/-! ## Reading -/

/-- A line of a file as the document holds it: without comment, outer white space and case. -/
def normalLine (ignoreCase : Bool) (line : String) : String :=
  let bare := Text.trim (Text.cutComment line)
  if ignoreCase then Text.lowercase bare else bare

/-- The directives of a text: its lines in normal form, without those that are blank. -/
def normalLines (ignoreCase : Bool) (text : String) : List String :=
  ((Text.lines text).filter fun line => Text.trim (Text.cutComment line) != "").map
    (normalLine ignoreCase)

/-- The name of a document in messages. -/
def identity (d : Document) : String := d.kind.keyword ++ "." ++ d.name

/-- Reads a text; a text without a directive is no document. Reference: `RuleDocument.parse`. -/
def parse (kind : DocumentKind) (name text : String) : Compiled Document :=
  let d : Document := ⟨kind, name, normalLines kind.ignoresCase text⟩
  if d.lines.isEmpty then .error (.missingKeyword d.identity "<any directive>") else .ok d

/-! ## Lines and keywords -/

/-- The number of lines. -/
def size (d : Document) : Nat := d.lines.length

/-- Whether the line at `index` starts with the keyword. -/
def startsWith (d : Document) (index : Nat) (keyword : String) : Bool :=
  match d.lines[index]? with
  | some line => Text.firstWord line == keyword
  | none => false

/-- The lines that start with the keyword, by index. Reference: `RuleDocument.positions`. -/
def positions (d : Document) (keyword : String) : List Nat :=
  (d.lines.zipIdx.filter fun x => Text.firstWord x.1 == keyword).map (·.2)

/-- The positions of a keyword are those of the lines that start with it. -/
theorem mem_positions {d : Document} {keyword : String} {index : Nat} :
    index ∈ d.positions keyword ↔ d.startsWith index keyword = true := by
  simp only [positions, startsWith, List.mem_map, List.mem_filter, Prod.exists,
    List.mem_zipIdx_iff_getElem?]
  constructor
  · rintro ⟨line, i, ⟨hline, hword⟩, rfl⟩
    simpa only [hline] using hword
  · intro h
    split at h
    next line hline => exact ⟨line, index, ⟨hline, h⟩, rfl⟩
    next => cases h

/-- The number of lines that start with the keyword. -/
def count (d : Document) (keyword : String) : Nat := (d.positions keyword).length

/-- The first line at or after `start` that starts with the keyword. -/
def findFrom? (d : Document) (keyword : String) (start : Nat) : Option Nat :=
  (d.positions keyword).find? (start ≤ ·)

/-- The first line that starts with the keyword. -/
def find? (d : Document) (keyword : String) : Option Nat := d.findFrom? keyword 0

/-- Whether some line starts with the keyword. -/
def has (d : Document) (keyword : String) : Bool := (d.find? keyword).isSome

/-- The error for a keyword that has to be there. -/
def missing (d : Document) (keyword : String) : CompileError := .missingKeyword d.identity keyword

/-- The error for a value that a keyword does not take. -/
def refused (d : Document) (keyword value : String) : CompileError :=
  .invalidParameter d.identity keyword value

/-- As `findFrom?`, where the keyword has to be there. -/
def requireFrom (d : Document) (keyword : String) (start : Nat) : Compiled Nat :=
  orFail (d.missing keyword) (d.findFrom? keyword start)

/-- As `find?`, where the keyword has to be there. -/
def require (d : Document) (keyword : String) : Compiled Nat := d.requireFrom keyword 0

/-- What follows the first word of the line at `index`; empty where there is no such line. -/
def paramsAt (d : Document) (index : Nat) : String :=
  match d.lines[index]? with
  | some line => Text.afterFirstWord line
  | none => ""

/-- What follows the keyword on the first line that starts with it. Reference:
`RuleDocument.params_for`. -/
def params? (d : Document) (keyword : String) : Option String :=
  (d.find? keyword).map d.paramsAt

/-- What follows the keyword on the line at `index`, which has to be something. -/
def requireParamsAt (d : Document) (index : Nat) (keyword : String) : Compiled String :=
  if d.paramsAt index == "" then .error (.missingParameter d.identity keyword index)
  else .ok (d.paramsAt index)

/-- What follows the keyword, which has to be there and be followed by something. Reference:
`RuleDocument.check_params_for`. -/
def requireParams (d : Document) (keyword : String) : Compiled String := do
  let index ← d.require keyword
  d.requireParamsAt index keyword

/-- How the first lines of two keywords stand to each other. Reference: `RuleDocument.compare`. -/
def compareKeywords (d : Document) (first second : String) : KeywordOrder :=
  match d.find? first, d.find? second with
  | none, none => .neither
  | some _, none => .onlyFirst
  | none, some _ => .onlySecond
  | some a, some b =>
    if a < b then .firstBeforeSecond else if b < a then .secondBeforeFirst else .same

/-! ## Blocks -/

/-- The lines from `start` to before `stop`, as a document of their own. Reference:
`RuleDocument.divide`. -/
def slice (d : Document) (start stop : Nat) : Compiled Document :=
  if start > stop || stop > d.size then .error (d.refused "<range>" s!"{start}..{stop}")
  else .ok { d with lines := (d.lines.take stop).drop start }

/-- The lines between the first `opener` at or after `start` and the next `closer`, with the index
of that closer. -/
def betweenFrom (d : Document) (opener closer : String) (start : Nat) :
    Compiled (Document × Nat) := do
  let opened ← d.requireFrom opener start
  let closed ← d.requireFrom closer (opened + 1)
  let block ← d.slice (opened + 1) closed
  return (block, closed)

/-- The lines between the first `opener` and the next `closer`. Reference:
`RuleDocument.divide_between`. -/
def between (d : Document) (opener closer : String) : Compiled Document := do
  let (block, _) ← d.betweenFrom opener closer 0
  return block

end Document

end HouseRules
