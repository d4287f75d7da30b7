import HouseRules.Proofs.Library

/-!
# What is found in a library

A library is filled by texts, which are stored under their names in lower case, and by documents,
which keep the names they have. Both replace what was stored before under the same kind and name, so
a library holds the latest document of each key, and each key once (`Library.stored?_ofEntries`,
`Library.Distinct`).

Looking up goes by the name in lower case. So of the names that a library lists exactly those
without a capital of ASCII lead to their documents; a document stored under any other name is listed
and never found (`Library.listed_and_found`).

Reference: `PluginLibrary` (specification E5).
-/

namespace HouseRules

namespace Text

/-- A letter is not lowered exactly if it is no capital of ASCII. -/
theorem toLower_eq_self_iff {c : Char} : c.toLower = c ↔ c.isUpper = false := by
  have hcapital : c.isUpper = true ↔ 0x41 ≤ c.toNat ∧ c.toNat ≤ 0x5A := by
    simp only [Char.isUpper, decide_eq_true_eq, ge_iff_le, UInt32.le_iff_toNat_le]
    rfl
  rw [← Char.toNat_inj, toNat_toLower, ← Bool.not_eq_true, hcapital]
  split <;> simp_all

/-- Lowering the letters of ASCII changes nothing exactly if none of them is a capital. -/
theorem asciiLower_eq_self_iff {s : String} :
    asciiLower s = s ↔ ∀ c ∈ s.toList, c.isUpper = false := by
  rw [asciiLower, ← String.toList_inj, String.toList_ofList]
  nth_rewrite 2 [← List.map_id s.toList]
  simp only [List.map_eq_map_iff, id, toLower_eq_self_iff]

end Text

namespace Library

/-! ## Filling a library -/

/-- Something put into a library. -/
inductive Entry where
  /-- A text, which is read and stored under its name in lower case. -/
  | text (kind : DocumentKind) (name body : String)
  /-- A document, which is stored as it is. -/
  | document (d : Document)
  deriving Repr, DecidableEq

/-- The document that an entry stores; a text that cannot be read stores none. -/
def Entry.document? : Entry → Option Document
  | .text kind name body => (Document.parse kind (Text.asciiLower name) body).toOption
  | .document d => some d

/-- The library with one more entry; it stays as it is where reading fails. -/
def enter (l : Library) : Entry → Library
  | .text kind name body => (l.addText kind name body).toOption.getD l
  | .document d => l.insert d

/-- The library filled by some entries. -/
def ofEntries (entries : List Entry) : Library := entries.foldl enter empty

/-- The document that was stored last under a kind and a name as written. -/
def latest? (entries : List Entry) (kind : DocumentKind) (name : String) : Option Document :=
  (entries.filterMap Entry.document?).reverse.find? fun d => d.kind == kind && d.name == name

variable {l : Library} {kind : DocumentKind} {name : String} {d : Document} {e : Entry}
  {entries : List Entry}

/-- An entry puts the document that it stores, if there is one, into the library. -/
theorem enter_eq (l : Library) (e : Entry) : l.enter e = (e.document?.map l.insert).getD l := by
  cases e with
  | document d => rfl
  | text kind name body =>
    rw [enter, addText, Entry.document?]
    cases Document.parse kind (Text.asciiLower name) body <;> rfl

/-- The last entry is entered last. -/
theorem ofEntries_append (entries : List Entry) (e : Entry) :
    ofEntries (entries ++ [e]) = (ofEntries entries).enter e := by
  rw [ofEntries, List.foldl_append]
  rfl

/-- The last entry goes first. -/
theorem latest?_append (entries : List Entry) (e : Entry) (kind : DocumentKind) (name : String) :
    latest? (entries ++ [e]) kind name =
      (e.document?.filter fun d => d.kind == kind && d.name == name).or
        (latest? entries kind name) := by
  rw [latest?, latest?, List.filterMap_append, List.reverse_append, List.find?_append]
  congr 1
  cases h : e.document? with
  | none => simp [h]
  | some d => simp [h, List.find?_cons, Option.filter]; split <;> simp_all

/-! ## One document for each key -/

/-- No two documents have both the same kind and the same name. -/
def Distinct (l : Library) : Prop := (l.documents.map fun d => (d.kind, d.name)).Nodup

/-- What is stored under a key has this key. -/
theorem stored?_eq_some (h : l.stored? kind name = some d) : d.kind = kind ∧ d.name = name := by
  simpa using List.find?_some h

/-- A document replaces the one of its key, so each key is there once. -/
theorem Distinct.insert (h : l.Distinct) (d : Document) : (l.insert d).Distinct := by
  rw [Distinct, Library.insert, List.map_cons, List.nodup_cons]
  refine ⟨fun hmem => ?_, h.sublist (List.filter_sublist.map _)⟩
  obtain ⟨e, he, hkey⟩ := List.mem_map.1 hmem
  simp only [Prod.mk.injEq] at hkey
  simp [hkey] at he

/-- However a library is filled, each key is there once. -/
theorem distinct_ofEntries (entries : List Entry) : (ofEntries entries).Distinct := by
  induction entries using List.reverseRecOn with
  | nil => exact List.nodup_nil
  | append_singleton entries e ih =>
    rw [ofEntries_append, enter_eq]
    cases e.document? with
    | none => exact ih
    | some d => exact ih.insert d

/-- What is stored under a key is the latest document of that key. -/
theorem stored?_ofEntries (entries : List Entry) (kind : DocumentKind) (name : String) :
    (ofEntries entries).stored? kind name = latest? entries kind name := by
  induction entries using List.reverseRecOn with
  | nil => rfl
  | append_singleton entries e ih =>
    rw [ofEntries_append, latest?_append, enter_eq]
    cases e.document? with
    | none => exact ih
    | some d =>
      by_cases h : d.kind = kind ∧ d.name = name
      · obtain ⟨rfl, rfl⟩ := h
        simp [Option.filter]
      · have hkey : (d.kind == kind && d.name == name) = false := by simpa using h
        simpa [Option.filter, hkey, stored?_insert_of_ne h] using ih

/-! ## Listing -/

/-- The names that are listed are those of the documents of the kind, put in order. -/
theorem names_perm (l : Library) (kind : DocumentKind) :
    (l.names kind).Perm ((l.documents.filter (·.kind == kind)).map (·.name)) :=
  List.mergeSort_perm _ _

/-- A library lists the names under which something is stored. -/
theorem mem_names : name ∈ l.names kind ↔ ∃ d, l.stored? kind name = some d := by
  rw [(l.names_perm kind).mem_iff, ← Option.isSome_iff_exists, stored?, List.find?_isSome]
  simp [and_assoc]

/-- Where each key is there once no name is listed twice. -/
theorem Distinct.nodup_names (h : l.Distinct) (kind : DocumentKind) : (l.names kind).Nodup := by
  rw [(l.names_perm kind).nodup_iff]
  have hkeys : ((l.documents.filter (·.kind == kind)).map fun d => (d.kind, d.name)).Nodup :=
    h.sublist (List.filter_sublist.map _)
  refine List.Nodup.map_on (fun a ha b hb hname => ?_) (.of_map _ hkeys)
  have hkind : a.kind = b.kind := by
    simp only [List.mem_filter, beq_iff_eq] at ha hb
    rw [ha.2, hb.2]
  exact List.inj_on_of_nodup_map hkeys ha hb (by rw [hkind, hname])

/-- Every document is listed under its kind. -/
theorem size_eq (l : Library) :
    l.size = (DocumentKind.all.map fun kind => (l.names kind).length).sum := by
  have hlength : ∀ kind, (l.names kind).length = l.documents.countP (·.kind == kind) := by
    intro kind
    rw [(l.names_perm kind).length_eq, List.length_map, List.countP_eq_length_filter]
  simp only [hlength, DocumentKind.all, List.map_cons, List.map_nil, List.sum_cons, List.sum_nil,
    size]
  induction l.documents with
  | nil => rfl
  | cons d documents ih =>
    simp only [List.countP_cons, List.length_cons]
    cases d.kind <;> simp <;> omega

/-! ## Looking up -/

/-- Looking up finds the latest document under the name in lower case. -/
theorem get?_ofEntries (entries : List Entry) (kind : DocumentKind) (name : String) :
    (ofEntries entries).get? kind name = latest? entries kind (Text.asciiLower name) :=
  stored?_ofEntries entries kind _

/-- What is stored under one name is not found under another. -/
theorem stored?_ne_of_ne {other : String} (h : l.stored? kind name = some d) (hne : other ≠ name) :
    l.stored? kind other ≠ some d := fun hother =>
  hne ((stored?_eq_some hother).2.symm.trans (stored?_eq_some h).2)

/-- A document that is stored under its name is found by it exactly if the name has no capital. -/
theorem get?_eq_iff (h : l.stored? kind name = some d) :
    l.get? kind name = some d ↔ Text.asciiLower name = name := by
  constructor
  · intro hget
    by_contra hne
    exact stored?_ne_of_ne h hne hget
  · intro heq
    rw [get?, heq, h]

/-- **Listing and looking up.** Let a library be filled with texts and documents, in any order and
under any names. It lists every name under which something is stored just once, and it has as many
documents as it lists names of all kinds. A listed name finds the document that was stored last
under it exactly if it has no capital of ASCII; otherwise it finds what was stored last under the
name in lower case, if anything was. So a text is always found by the name it was added under, and a
document that is stored as it is by its name only where that has no capital. -/
theorem listed_and_found (entries : List Entry) :
    (∀ kind, ((ofEntries entries).names kind).Nodup) ∧
      (∀ kind name, name ∈ (ofEntries entries).names kind ↔
        ∃ d, latest? entries kind name = some d) ∧
      (ofEntries entries).size =
        (DocumentKind.all.map fun kind => ((ofEntries entries).names kind).length).sum ∧
      (∀ kind, ∀ name ∈ (ofEntries entries).names kind,
        (ofEntries entries).get? kind name = latest? entries kind (Text.asciiLower name) ∧
        ((ofEntries entries).get? kind name = latest? entries kind name ↔
          ∀ c ∈ name.toList, c.isUpper = false)) ∧
      (∀ kind name body d, Document.parse kind (Text.asciiLower name) body = .ok d →
        (ofEntries (entries ++ [.text kind name body])).get? kind name = some d) ∧
      ∀ d, (ofEntries (entries ++ [.document d])).get? d.kind d.name = some d ↔
        ∀ c ∈ d.name.toList, c.isUpper = false := by
  have hdistinct := distinct_ofEntries entries
  refine ⟨hdistinct.nodup_names, fun kind name => ?_, size_eq _, fun kind name hname => ?_,
    fun kind name body d hd => ?_, fun d => ?_⟩
  · rw [mem_names, stored?_ofEntries]
  · obtain ⟨d, hd⟩ := mem_names.1 hname
    refine ⟨get?_ofEntries entries kind name, ?_⟩
    rw [← stored?_ofEntries, hd, get?_eq_iff hd, Text.asciiLower_eq_self_iff]
  · obtain ⟨-, hparsed⟩ := Document.parse_ok.1 hd
    rw [get?_ofEntries, latest?_append, Entry.document?, hd]
    simp [Except.toOption, Option.filter, hparsed]
  · have hstored : (ofEntries (entries ++ [.document d])).stored? d.kind d.name = some d := by
      rw [ofEntries_append]
      exact stored?_insert_self _ d
    rw [get?_eq_iff hstored, Text.asciiLower_eq_self_iff]

/-- A document under a name with a capital, and a text under one. -/
def mixedCase : List Entry :=
  [.document ⟨.deck, "Standard", ["size 1"]⟩, .text .deck "Plain" "size 2"]

/-- Both are listed. The text is found by the name it was added under; the document is not found. -/
theorem mixedCase_listed_and_found :
    "Standard" ∈ (ofEntries mixedCase).names .deck ∧
      (ofEntries mixedCase).get? .deck "Standard" ≠ latest? mixedCase .deck "Standard" ∧
      (ofEntries mixedCase).get? .deck "Standard" = none ∧
      "plain" ∈ (ofEntries mixedCase).names .deck ∧
      (ofEntries mixedCase).get? .deck "Plain" = some ⟨.deck, "plain", ["size 2"]⟩ := by
  obtain ⟨-, hlisted, -, hfound, -⟩ := listed_and_found mixedCase
  obtain ⟨-, -, -, -, htext, -⟩ := listed_and_found [.document ⟨.deck, "Standard", ["size 1"]⟩]
  have hstandard : "Standard" ∈ (ofEntries mixedCase).names .deck :=
    (hlisted .deck "Standard").2 ⟨⟨.deck, "Standard", ["size 1"]⟩, by decide +kernel⟩
  obtain ⟨hget, hiff⟩ := hfound .deck "Standard" hstandard
  refine ⟨hstandard, fun heq => ?_, hget.trans (by decide +kernel), ?_, ?_⟩
  · exact absurd (hiff.1 heq 'S' (by decide)) (by decide)
  · exact (hlisted .deck "plain").2 ⟨⟨.deck, "plain", ["size 2"]⟩, by decide +kernel⟩
  · exact htext .deck "Plain" "size 2" _
      (Document.parse_ok.2 ⟨by decide +kernel, by decide +kernel⟩)

end Library

end HouseRules
