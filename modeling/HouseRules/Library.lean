import HouseRules.Document

/-!
# The library of documents

A library keeps documents by kind and name, the last one stored under a key winning. Texts are
stored under their name in lower case and looked up in lower case, so that rule files may write the
names of decks and boards as they like; a document stored as it is keeps the name it has.

Reference: `PluginLibrary` (specification E5).
-/

namespace HouseRules

/-- Documents by kind and name, at most one of each. Reference: `PluginLibrary`. -/
structure Library where
  documents : List Document
  deriving Repr, DecidableEq, Inhabited

namespace Library

/-- The library without documents. -/
def empty : Library := ⟨[]⟩

/-- The document stored under a kind and a name as written. -/
def stored? (l : Library) (kind : DocumentKind) (name : String) : Option Document :=
  l.documents.find? fun d => d.kind == kind && d.name == name

/-- Stores a document in place of one of the same kind and name. Reference:
`PluginLibrary.insert`. -/
def insert (l : Library) (d : Document) : Library :=
  ⟨d :: l.documents.filter fun e => !(e.kind == d.kind && e.name == d.name)⟩

@[simp] theorem stored?_insert_self (l : Library) (d : Document) :
    (l.insert d).stored? d.kind d.name = some d := by
  simp [stored?, insert]

/-- Reads a text and stores it under its name in lower case. Reference: `PluginLibrary.add_text`. -/
def addText (l : Library) (kind : DocumentKind) (name text : String) : Compiled Library := do
  let d ← Document.parse kind (Text.asciiLower name) text
  return l.insert d

/-- The document of a kind and a name in either case. Reference: `PluginLibrary.get`. -/
def get? (l : Library) (kind : DocumentKind) (name : String) : Option Document :=
  l.stored? kind (Text.asciiLower name)

/-- As `get?`, where `referrer` needs the document. Reference: `PluginLibrary.require`. -/
def require (l : Library) (kind : DocumentKind) (name referrer : String) : Compiled Document :=
  orFail (.unresolvedReference kind.keyword name referrer) (l.get? kind name)

/-- The names of all documents of a kind, in the order of their characters. Reference:
`PluginLibrary.names`. -/
def names (l : Library) (kind : DocumentKind) : List String :=
  ((l.documents.filter (·.kind == kind)).map (·.name)).mergeSort fun a b => !decide (b < a)

/-- The number of documents. -/
def size (l : Library) : Nat := l.documents.length

/-- The library of the files of a directory, given by name and text. Files whose name is not of the
form `kind.name.txt` are passed over. -/
def ofFiles (files : List (String × String)) : Compiled Library :=
  files.foldlM (fun l (fileName, text) => do
    match DocumentKind.ofFileName? fileName with
    | some (kind, name) => return l.insert (← Document.parse kind name text)
    | none => return l) empty

/-- The library of a directory, `none` if there is no such directory. Reference:
`PluginLibrary.load_dir`. -/
def load (directory : Option (List (String × String))) : Compiled Library := do
  let files ← orFail (.unreadable "No such file or directory (os error 2)") directory
  ofFiles files

end Library

end HouseRules
