import HouseRules.Document

/-!
# Records of a rules document

Components are written as records. A record opens with a keyword and a name and runs to the next
opener or to the closing keyword, so one block may hold many records and a document many blocks.
Every closing line has to end a record.

Reference: `Record`, `records.split` (specification E2.3).
-/

namespace HouseRules

/-- The lines of one component. Reference: `Record`. -/
structure Record where
  /-- The line of the opener. -/
  line : Nat
  /-- What follows the opening keyword. -/
  header : String
  body : List String
  deriving Repr, DecidableEq, Inhabited

namespace Record

/-- Reads the record that opens at a line, with whether a closing line ends it. -/
def readAt (doc : Document) (opener closer : String) (line : Nat) : Compiled (Record × Bool) := do
  let header ← doc.requireParamsAt line opener
  let close ← doc.requireFrom closer (line + 1)
  let next := doc.findFrom? opener (line + 1)
  let stop := (next.filter (· < close)).getD close
  let block ← doc.slice (line + 1) stop
  return (⟨line, header, block.lines⟩, stop == close)

/-- The records of a document between two keywords, in order. Reference: `records.split`. -/
def split (doc : Document) (opener closer : String) : Compiled (List Record) := do
  let records ← (doc.positions opener).mapM (readAt doc opener closer)
  let used := records.countP (·.2)
  let found := doc.count closer
  if found != used then
    throw (.countMismatch doc.identity ("`" ++ closer ++ "` lines") used found)
  return records.map (·.1)

/-- The name in a header, and whether `not` stands before it. Reference:
`records.negatable_header`. -/
def negatableName (doc : Document) (keyword header : String) : Compiled (String × Bool) :=
  match Text.words header with
  | [name] => .ok (name, false)
  | ["not", name] => .ok (name, true)
  | _ => .error (doc.refused keyword header)

/-- The name in a header that is nothing else. Reference: `records.plain_header`. -/
def plainName (doc : Document) (keyword header : String) : Compiled String := do
  match ← negatableName doc keyword header with
  | (name, false) => return name
  | (_, true) => throw (doc.refused keyword header)

end Record

end HouseRules
