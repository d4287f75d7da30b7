import Mathlib.Algebra.GroupWithZero.Nat
import Mathlib.Data.List.ProdSigma
import HouseRules.Deck.Reader
import HouseRules.Proofs.Document

/-!
# The cards of a deck document

A deck document can be laid out in two ways. `Deck.compile` reads all entries and counts them before
any card is made. `Deck.compileStepwise` makes the cards of each entry as soon as it is read and
stops making more when there is one too many, so that it never holds more than the declared size and
one, and the numbers of its cards stay within two bytes. Both come to the same deck or the same
error, for all quantities (`Deck.compileStepwise_eq`): at any time the catalog laid out is the full
expansion of the entries read, cut off behind one card too many.

What the lines of a document say is told apart from how they are read (`Deck.Head.Written`,
`DeckEntry.Written`), and `Deck.compile_expands` says which cards come out.

Reference: `Deck.compile` (specification E2.1).
-/

namespace HouseRules

namespace Deck

/-! ## Laying out card by card -/

/-- A catalog with one more card. Cards are numbered in order; a number is two bytes and stays at
the largest. -/
def push (cards : List Card) (attributes : String × Option String) : List Card :=
  cards ++ [⟨min cards.length maxSize, attributes.1, attributes.2⟩]

/-- A catalog with copies of a card, made as long as it holds no more than `size` cards. -/
def pushCopies (size : Nat) (attributes : String × Option String) : Nat → List Card → List Card
  | 0, cards => cards
  | n + 1, cards =>
    if size < cards.length then cards else pushCopies size attributes n (push cards attributes)

/-- The cards of a deck document, made while its list of cards is read. -/
def layOut (doc : Document) (head : Head) (cardsAt : Nat) : Compiled (List Card) :=
  if doc.paramsAt cardsAt == "all" then .ok ((allPairs head.faces head.groups).foldl push [])
  else
    (doc.lines.drop (cardsAt + 1)).foldlM (fun cards line => do
      let e ← readEntry doc head line
      return pushCopies head.size (e.face, e.group) e.quantity cards) []

/-- Refuses cards that are not as many as the head declares. -/
def checkSize (doc : Document) (head : Head) (cards : List Card) : Compiled (List Card) :=
  if cards.length != head.size then throw (wrongSize doc head cards.length) else return cards

/-- Compiles a deck document card by card. -/
def compileStepwise (doc : Document) : Compiled Deck := do
  let head ← readHead doc
  let cardsAt ← doc.require "cards"
  let cards ← layOut doc head cardsAt >>= checkSize doc head
  return {
    name := doc.name
    cards
    faces := head.faces
    groups := head.groups
    grouping := head.grouping }

/-- The next card of a catalog gets the next number, as long as two bytes hold it. -/
theorem push_number {pairs : List (String × Option String)} (h : pairs.length ≤ maxSize)
    (attributes : String × Option String) :
    push (number pairs) attributes = number (pairs ++ [attributes]) := by
  rw [push, length_number, Nat.min_eq_left h, number, number, List.zipIdx_append, List.map_append]
  simp

/-- Making copies extends the expansion, of which the catalog holds at most one card too many. -/
theorem pushCopies_number {size : Nat} (hsize : size ≤ maxSize)
    (attributes : String × Option String) (n : Nat) (pairs : List (String × Option String)) :
    pushCopies size attributes n (number (pairs.take (size + 1))) =
      number ((pairs ++ List.replicate n attributes).take (size + 1)) := by
  induction n generalizing pairs with
  | zero => rw [pushCopies, List.replicate_zero, List.append_nil]
  | succ n ih =>
    rw [pushCopies, length_number, List.length_take]
    split
    next hfull => rw [List.take_append_of_le_length (by omega)]
    next hroom =>
      have hpairs : pairs.length ≤ size := by omega
      have htake : pairs.take (size + 1) = pairs := List.take_of_length_le (by omega)
      have hnext : pairs ++ [attributes] = (pairs ++ [attributes]).take (size + 1) :=
        (List.take_of_length_le (by simpa using hpairs)).symm
      rw [htake, push_number (Nat.le_trans hpairs hsize), hnext, ih, List.append_assoc,
        List.singleton_append, ← List.replicate_succ]

/-- After some entries the catalog is their expansion, cut off behind one card too many. -/
theorem foldl_pushCopies {size : Nat} (hsize : size ≤ maxSize) (entries : List DeckEntry)
    (pairs : List (String × Option String)) :
    entries.foldl (fun cards e => pushCopies size (e.face, e.group) e.quantity cards)
        (number (pairs.take (size + 1))) =
      number ((pairs ++ DeckEntry.expand entries).take (size + 1)) := by
  induction entries generalizing pairs with
  | nil => rw [DeckEntry.expand, List.flatMap_nil, List.append_nil, List.foldl_nil]
  | cons e entries ih =>
    rw [List.foldl_cons, pushCopies_number hsize, ih, List.append_assoc]
    rfl

/-- Cards that are pushed one by one onto numbered ones are numbered on, as long as there is
room. -/
theorem foldl_push {pairs more : List (String × Option String)}
    (h : (pairs ++ more).length ≤ maxSize) :
    more.foldl push (number pairs) = number (pairs ++ more) := by
  induction more generalizing pairs with
  | nil => rw [List.foldl_nil, List.append_nil]
  | cons attributes more ih =>
    have hpairs : pairs.length ≤ maxSize := by
      rw [List.length_append] at h
      omega
    rw [List.append_cons] at h ⊢
    rw [List.foldl_cons, push_number hpairs, ih h]

/-- Every card that is pushed makes the list longer by one. -/
theorem length_foldl_push (cards : List Card) (more : List (String × Option String)) :
    (more.foldl push cards).length = cards.length + more.length := by
  induction more generalizing cards with
  | nil => rfl
  | cons attributes more ih =>
    rw [List.foldl_cons, ih, push, List.length_append, List.length_singleton, List.length_cons,
      Nat.add_assoc, Nat.add_comm 1]

/-- Folding what is read while it is read is folding it afterwards. -/
theorem foldlM_read {ε α β γ : Type} (read : α → Except ε β) (step : γ → β → γ) (l : List α)
    (c : γ) :
    l.foldlM (fun c a => do
      let b ← read a
      return step c b) c = (l.mapM read).map (List.foldl step c) := by
  induction l generalizing c with
  | nil => rfl
  | cons a l ih =>
    rw [List.foldlM_cons, List.mapM_cons]
    cases read a with
    | error e => rfl
    | ok b =>
      refine (ih (step c b)).trans ?_
      cases l.mapM read <;> rfl

variable {doc : Document} {head : Head}

/-! ## What a deck document says -/

/-- What the head of a deck document says: the size is a number of two bytes, some faces are listed,
and the other lines may be missing. -/
structure Head.Written (doc : Document) (h : Head) : Prop where
  size : ∃ text, doc.params? "size" = some text ∧ Text.count? text = some h.size
  size_le : h.size ≤ 65535
  faces : ∃ text, doc.params? "faces" = some text ∧ text ≠ "" ∧ h.faces = Text.words text
  groups : h.groups = Text.words ((doc.params? "groups").getD "")
  grouping : h.grouping = (doc.params? "grouping").filter (· != "")
  counted : h.counted = doc.has "specify-quantity"

/-- Reading the head of a document gives just what is written there. -/
theorem readHead_ok : readHead doc = .ok head ↔ head.Written doc := by
  simp only [readHead, bind_ok, guard_ok, pure_ok, Document.requireParams_ok, orFail_eq_ok]
  constructor
  · rintro ⟨text, ⟨htext, -⟩, size, hsize, hle, faces, ⟨hfaces, hne⟩, rfl⟩
    exact ⟨⟨text, htext, hsize⟩, Nat.le_of_not_lt hle, ⟨faces, hfaces, hne, rfl⟩, rfl, rfl, rfl⟩
  · rintro ⟨⟨text, htext, hsize⟩, hle, ⟨faces, hfaces, hne, hwords⟩, hgroups, hgrouping, hcounted⟩
    have hsome : text ≠ "" := by
      rintro rfl
      cases hsize
    refine ⟨text, ⟨htext, hsome⟩, head.size, hsize, Nat.not_lt.2 hle, faces, ⟨hfaces, hne⟩, ?_⟩
    rw [← hwords, ← hgroups, ← hgrouping, ← hcounted]

end Deck

/-- What a line of a deck's list of cards says: the index of a face, the index of a group if there
are groups, and the number of copies if entries are counted. -/
def DeckEntry.Written (h : Deck.Head) (line : String) (e : DeckEntry) : Prop :=
  ∃ face group quantity : String,
    Text.fields line = [face] ++ (if h.groups = [] then [] else [group]) ++
      (if h.counted then [quantity] else []) ∧
    (∃ i, Text.count? face = some i ∧ h.faces[i]? = some e.face) ∧
    (if h.groups = [] then e.group = none
      else ∃ i name, Text.count? group = some i ∧ h.groups[i]? = some name ∧
        e.group = some name) ∧
    (if h.counted then Text.count? quantity = some e.quantity else e.quantity = 1)

namespace Deck

variable {doc : Document} {head : Head}

/-- An index is read as the name that stands at it. -/
theorem indexed_ok {what : String} {names : List String} {text name : String} :
    indexed doc what names text = .ok name ↔
      ∃ i, Text.count? text = some i ∧ names[i]? = some name := by
  rw [indexed, orFail_eq_ok, Option.bind_eq_some_iff]

/-- An entry is read from its fields, which have to be as many as the head says. -/
theorem readEntry_fields {line : String} {e : DeckEntry} :
    readEntry doc head line = .ok e ↔
      (Text.fields line).length = head.fieldCount ∧
      (∃ i, Text.count? ((Text.fields line)[0]?.getD "") = some i ∧ head.faces[i]? = some e.face) ∧
      (if head.groups = [] then e.group = none
        else ∃ i name, Text.count? ((Text.fields line)[1]?.getD "") = some i ∧
          head.groups[i]? = some name ∧ e.group = some name) ∧
      (if head.counted then
        Text.count? ((Text.fields line)[head.fieldCount - 1]?.getD "") = some e.quantity
        else e.quantity = 1) := by
  obtain ⟨face, group, quantity⟩ := e
  have hmore : ∀ b : Bool, (¬ (b && (Text.fields line).length == head.fieldCount + 1) = true ∧
      (Text.fields line).length = head.fieldCount) ↔
        (Text.fields line).length = head.fieldCount := fun b => by
    cases b <;> grind
  simp only [readEntry, guard_ok, bind_ok, bne_iff_ne, ne_eq, not_not]
  rw [← and_assoc, hmore]
  refine and_congr_right fun _ => ?_
  by_cases hgroups : head.groups = [] <;> cases hcounted : head.counted <;>
    simp [hgroups, fmap_ok, bind_ok, pure_ok, indexed_ok, orFail_eq_ok]
  all_goals grind

/-- A line for a card is read as an entry just when it is written for this entry. -/
theorem readEntry_ok {line : String} {e : DeckEntry} :
    readEntry doc head line = .ok e ↔ e.Written head line := by
  rw [readEntry_fields, DeckEntry.Written]
  generalize Text.fields line = fields
  by_cases hgroups : head.groups = [] <;> cases hcounted : head.counted
  case pos.false =>
    have hcount : head.fieldCount = 1 := by simp [Head.fieldCount, hgroups, hcounted]
    simp only [hcount, hgroups, if_true, List.length_eq_one_iff]
    constructor
    · rintro ⟨⟨face, rfl⟩, hface, hgroup, hquantity⟩
      exact ⟨face, "", "", rfl, hface, hgroup, hquantity⟩
    · rintro ⟨face, _, _, rfl, hface, hgroup, hquantity⟩
      exact ⟨⟨face, rfl⟩, hface, hgroup, hquantity⟩
  case pos.true =>
    have hcount : head.fieldCount = 2 := by simp [Head.fieldCount, hgroups, hcounted]
    simp only [hcount, hgroups, if_true, List.length_eq_two]
    constructor
    · rintro ⟨⟨face, quantity, rfl⟩, hface, hgroup, hquantity⟩
      exact ⟨face, "", quantity, rfl, hface, hgroup, hquantity⟩
    · rintro ⟨face, _, quantity, rfl, hface, hgroup, hquantity⟩
      exact ⟨⟨face, quantity, rfl⟩, hface, hgroup, hquantity⟩
  case neg.false =>
    have hcount : head.fieldCount = 2 := by simp [Head.fieldCount, hgroups, hcounted]
    simp only [hcount, if_neg hgroups, List.length_eq_two]
    constructor
    · rintro ⟨⟨face, group, rfl⟩, hface, hgroup, hquantity⟩
      exact ⟨face, group, "", rfl, hface, hgroup, hquantity⟩
    · rintro ⟨face, group, _, rfl, hface, hgroup, hquantity⟩
      exact ⟨⟨face, group, rfl⟩, hface, hgroup, hquantity⟩
  case neg.true =>
    have hcount : head.fieldCount = 3 := by simp [Head.fieldCount, hgroups, hcounted]
    simp only [hcount, if_neg hgroups, List.length_eq_three]
    constructor
    · rintro ⟨⟨face, group, quantity, rfl⟩, hface, hgroup, hquantity⟩
      exact ⟨face, group, quantity, rfl, hface, hgroup, hquantity⟩
    · rintro ⟨face, group, quantity, rfl, hface, hgroup, hquantity⟩
      exact ⟨⟨face, group, quantity, rfl⟩, hface, hgroup, hquantity⟩

/-! ## Both ways agree -/

/-- As many cards as the head announces pass the check. -/
theorem checkSize_of_eq {cards : List Card} (h : cards.length = head.size) :
    checkSize doc head cards = .ok cards := if_neg (by simp [h])

/-- More cards or fewer than the head announces are refused with the right number. -/
theorem checkSize_of_ne {cards : List Card} (h : cards.length ≠ head.size) :
    checkSize doc head cards = .error (wrongSize doc head cards.length) := if_pos (by simp [h])

/-- Laying out all pairs and counting the cards is counting the pairs. -/
theorem checkSize_push (hsize : head.size ≤ maxSize) (pairs : List (String × Option String)) :
    checkSize doc head (pairs.foldl push []) =
      if pairs.length == head.size then .ok (number pairs)
      else .error (wrongSize doc head pairs.length) := by
  have hlength : (pairs.foldl push []).length = pairs.length := by
    rw [length_foldl_push, List.length_nil, Nat.zero_add]
  by_cases hcount : pairs.length = head.size
  · have hcards : pairs.foldl push [] = number pairs :=
      @foldl_push [] pairs (Nat.le_trans (Nat.le_of_eq hcount) hsize)
    rw [checkSize_of_eq (hlength.trans hcount), hcards, if_pos (beq_iff_eq.2 hcount)]
  · rw [checkSize_of_ne (hlength ▸ hcount), hlength, if_neg (by rwa [beq_iff_eq])]

/-- Laying out entries until there is a card too many and counting the cards is counting the
copies. -/
theorem checkSize_pushCopies (hsize : head.size ≤ maxSize) (entries : List DeckEntry) :
    checkSize doc head (entries.foldl (fun cards e =>
        pushCopies head.size (e.face, e.group) e.quantity cards) []) =
      if DeckEntry.total entries == head.size then .ok (number (DeckEntry.expand entries))
      else .error (wrongSize doc head (min (DeckEntry.total entries) (head.size + 1))) := by
  have hcards : entries.foldl (fun cards e =>
      pushCopies head.size (e.face, e.group) e.quantity cards) [] =
        number ((DeckEntry.expand entries).take (head.size + 1)) :=
    foldl_pushCopies hsize entries []
  have hlength : (number ((DeckEntry.expand entries).take (head.size + 1))).length =
      min (DeckEntry.total entries) (head.size + 1) := by
    rw [length_number, List.length_take, DeckEntry.length_expand, Nat.min_comm]
  rw [hcards]
  by_cases hcount : DeckEntry.total entries = head.size
  · rw [checkSize_of_eq (by omega), if_pos (beq_iff_eq.2 hcount), List.take_of_length_le]
    rw [DeckEntry.length_expand]
    omega
  · rw [checkSize_of_ne (by omega), hlength, if_neg (by rwa [beq_iff_eq])]

/-- Below the limit, laying out and checking the number of cards gives what the lines expand to,
numbered in order. -/
theorem layOut_checkSize (hsize : head.size ≤ maxSize) (cardsAt : Nat) :
    layOut doc head cardsAt >>= checkSize doc head =
      (readPairs doc head cardsAt).map number := by
  rw [layOut, readPairs]
  split
  next =>
    refine (checkSize_push hsize _).trans ?_
    dsimp only
    split <;> rfl
  next =>
    rw [foldlM_read (readEntry doc head)
      (fun cards e => pushCopies head.size (e.face, e.group) e.quantity cards)]
    cases (doc.lines.drop (cardsAt + 1)).mapM (readEntry doc head) with
    | error e => rfl
    | ok entries =>
      refine (checkSize_pushCopies hsize entries).trans ?_
      show _ = Except.map number (if _ then _ else _)
      split <;> rfl

/-- Laying out card by card stops early or not, and ends as counting first does. -/
theorem compileStepwise_eq (doc : Document) : compileStepwise doc = compile doc := by
  rw [compileStepwise, compile]
  cases hhead : readHead doc with
  | error e => rfl
  | ok head =>
    cases doc.require "cards" with
    | error e => rfl
    | ok cardsAt =>
      show (layOut doc head cardsAt >>= checkSize doc head) >>= _ = _
      rw [layOut_checkSize (readHead_ok.1 hhead).size_le]
      show _ = readPairs doc head cardsAt >>= _
      cases readPairs doc head cardsAt <;> rfl

/-! ## The cards that come out -/

/-- The attributes of the cards of a deck, in the order of the catalog. -/
def attributes (d : Deck) : List (String × Option String) := d.cards.map fun c => (c.face, c.group)

/-- A deck as its document describes it: with as many cards as declared, which are numbered in
order and have declared faces and groups only, every face in every group or what the lines of the
list of cards say, copy by copy. -/
structure Expands (doc : Document) (head : Head) (cardsAt : Nat) (d : Deck) : Prop where
  name : d.name = doc.name
  faces : d.faces = head.faces
  groups : d.groups = head.groups
  grouping : d.grouping = head.grouping
  size : d.cards.length = head.size
  size_le : d.cards.length ≤ 65535
  id : ∀ (i : Nat) (c : Card), d.cards[i]? = some c → c.id = i
  face_mem : ∀ c ∈ d.cards, c.face ∈ head.faces
  group_mem : ∀ c ∈ d.cards, ∀ g ∈ c.group, g ∈ head.groups
  isSome_group : ∀ c ∈ d.cards, c.group.isSome ↔ head.groups ≠ []
  all : doc.paramsAt cardsAt = "all" →
    d.attributes = if head.groups = [] then head.faces.map fun face => (face, none)
      else (head.faces ×ˢ head.groups).map fun (face, group) => (face, some group)
  listed : doc.paramsAt cardsAt ≠ "all" →
    ∃ entries, List.Forall₂ (DeckEntry.Written head) (doc.lines.drop (cardsAt + 1)) entries ∧
      d.attributes = entries.flatMap fun e => List.replicate e.quantity (e.face, e.group)

/-- Attributes of cards are of a head when they are declared there. -/
def Head.Declares (h : Head) (x : String × Option String) : Prop :=
  x.1 ∈ h.faces ∧ (∀ g ∈ x.2, g ∈ h.groups) ∧ (x.2.isSome ↔ h.groups ≠ [])

/-- Numbering cards leaves their attributes as they are. -/
theorem attributes_number {name : String} {pairs : List (String × Option String)}
    {faces groups : List String} {grouping : Option String} :
    attributes ⟨name, number pairs, faces, groups, grouping⟩ = pairs := by
  rw [attributes, number, List.map_map]
  exact List.zipIdx_map_fst 0 pairs

/-- The number of a card is its place. -/
theorem id_of_getElem?_number {pairs : List (String × Option String)} {i : Nat} {c : Card}
    (h : (number pairs)[i]? = some c) : c.id = i := by
  rw [number, List.getElem?_map, List.getElem?_zipIdx, Option.map_map, Option.map_eq_some_iff] at h
  obtain ⟨pair, -, rfl⟩ := h
  exact Nat.zero_add i

/-- The attributes of a numbered card are among those that were numbered. -/
theorem mem_of_mem_number {pairs : List (String × Option String)} {c : Card}
    (h : c ∈ number pairs) : (c.face, c.group) ∈ pairs := by
  rw [number, List.mem_map] at h
  obtain ⟨⟨pair, i⟩, hpair, rfl⟩ := h
  exact (List.mem_zipIdx' hpair).2 ▸ List.getElem_mem _

/-- All pairs are every face alone, or every face with every group. -/
theorem allPairs_eq (faces groups : List String) :
    allPairs faces groups = if groups = [] then faces.map fun face => (face, none)
      else (faces ×ˢ groups).map fun (face, group) => (face, some group) := by
  unfold allPairs
  by_cases hgroups : groups = []
  · rw [if_pos hgroups]
    simp [hgroups, List.map_eq_flatMap]
  · rw [if_neg hgroups]
    simp [hgroups, SProd.sprod, List.product, List.map_flatMap, Function.comp_def]

/-- The head declares every pair that it makes. -/
theorem Head.declares_of_allPairs {x : String × Option String}
    (hx : x ∈ allPairs head.faces head.groups) : head.Declares x := by
  rw [allPairs, List.mem_flatMap] at hx
  obtain ⟨face, hface, hx⟩ := hx
  split at hx
  next hgroups =>
    rw [List.mem_singleton] at hx
    subst hx
    exact ⟨hface, nofun, by simpa using hgroups⟩
  next hgroups =>
    rw [List.mem_map] at hx
    obtain ⟨group, hgroup, rfl⟩ := hx
    refine ⟨hface, ?_, ?_⟩
    · rintro _ ⟨⟩
      exact hgroup
    · simpa using hgroups

/-- Copies have what their entry has. -/
theorem Head.declares_of_entry {line : String} {e : DeckEntry} (h : e.Written head line) :
    head.Declares (e.face, e.group) := by
  obtain ⟨face, group, quantity, -, ⟨i, -, hi⟩, hgroup, -⟩ := h
  refine ⟨List.mem_of_getElem? hi, ?_, ?_⟩
  all_goals
    by_cases hgroups : head.groups = []
    · rw [if_pos hgroups] at hgroup
      simp [hgroup, hgroups]
    · rw [if_neg hgroups] at hgroup
      obtain ⟨j, name, -, hj, hname⟩ := hgroup
      simp [hname, hgroups, List.mem_of_getElem? hj]

/-- The head declares every pair that entries written under it expand to. -/
theorem Head.declares_of_expand {lines : List String} {entries : List DeckEntry}
    (h : List.Forall₂ (DeckEntry.Written head) lines entries) {x : String × Option String}
    (hx : x ∈ DeckEntry.expand entries) : head.Declares x := by
  rw [DeckEntry.expand, List.mem_flatMap] at hx
  obtain ⟨e, he, hx⟩ := hx
  obtain ⟨line, -, hline⟩ := exists_of_mem_forall₂ h he
  rw [List.eq_of_mem_replicate hx]
  exact Head.declares_of_entry hline

/-- The word `all` is read as every pair there is, and these are as many as announced. -/
theorem readPairs_all {cardsAt : Nat} (hall : doc.paramsAt cardsAt = "all")
    {pairs : List (String × Option String)} (h : readPairs doc head cardsAt = .ok pairs) :
    pairs = allPairs head.faces head.groups ∧ pairs.length = head.size := by
  simp only [readPairs, hall, beq_self_eq_true, if_true] at h
  split at h
  next hcount =>
    cases h
    exact ⟨rfl, beq_iff_eq.1 hcount⟩
  next => cases h

/-- Lines are read as entries just when each is written for its own. -/
theorem mapM_readEntry {lines : List String} {entries : List DeckEntry} :
    lines.mapM (readEntry doc head) = .ok entries ↔
      List.Forall₂ (DeckEntry.Written head) lines entries := by
  rw [mapM_ok]
  simp only [readEntry_ok]

/-- The lines of a list of cards come to their expansion when that is as long as declared. -/
theorem readPairs_listed {cardsAt : Nat} (hlisted : doc.paramsAt cardsAt ≠ "all")
    {entries : List DeckEntry}
    (h : List.Forall₂ (DeckEntry.Written head) (doc.lines.drop (cardsAt + 1)) entries) :
    readPairs doc head cardsAt =
      if DeckEntry.total entries = head.size then .ok (DeckEntry.expand entries)
      else .error (wrongSize doc head (min (DeckEntry.total entries) (head.size + 1))) := by
  rw [readPairs, if_neg (by simpa using hlisted), mapM_readEntry.2 h]
  simp only [bind, Except.bind, beq_iff_eq]
  rfl

/-- What becomes of a document whose head is in order. -/
theorem compile_of_written (hhead : head.Written doc) {cardsAt : Nat}
    (hcards : doc.find? "cards" = some cardsAt) :
    compile doc = (readPairs doc head cardsAt).map fun pairs =>
      ⟨doc.name, number pairs, head.faces, head.groups, head.grouping⟩ := by
  have hrequire : doc.require "cards" = .ok cardsAt := orFail_eq_ok.2 hcards
  rw [compile, readHead_ok.2 hhead, hrequire]
  show readPairs doc head cardsAt >>= _ = _
  cases readPairs doc head cardsAt <;> rfl

/-- A document that compiles has a head and a line for its cards. -/
theorem written_of_compile {d : Deck} (h : compile doc = .ok d) :
    ∃ head cardsAt, Head.Written doc head ∧ doc.find? "cards" = some cardsAt := by
  simp only [compile, bind_ok, readHead_ok] at h
  obtain ⟨head, hhead, cardsAt, hcards, -⟩ := h
  exact ⟨head, cardsAt, hhead, orFail_eq_ok.1 hcards⟩

/-- The deck of a document whose head is in order is what the document describes. -/
theorem expands_of_compile (hhead : head.Written doc) {cardsAt : Nat}
    (hcards : doc.find? "cards" = some cardsAt) {d : Deck} (h : compile doc = .ok d) :
    Expands doc head cardsAt d := by
  rw [compile_of_written hhead hcards, map_ok] at h
  obtain ⟨pairs, hpairs, rfl⟩ := h
  have hread : pairs.length = head.size ∧ (∀ x ∈ pairs, head.Declares x) ∧
      (doc.paramsAt cardsAt = "all" → pairs = allPairs head.faces head.groups) ∧
      (doc.paramsAt cardsAt ≠ "all" → ∃ entries,
        List.Forall₂ (DeckEntry.Written head) (doc.lines.drop (cardsAt + 1)) entries ∧
          pairs = DeckEntry.expand entries) := by
    by_cases hall : doc.paramsAt cardsAt = "all"
    · obtain ⟨rfl, hlength⟩ := readPairs_all hall hpairs
      exact ⟨hlength, fun x => Head.declares_of_allPairs, fun _ => rfl, fun h => absurd hall h⟩
    · have hentries : Succeeds ((doc.lines.drop (cardsAt + 1)).mapM (readEntry doc head)) := by
        rw [readPairs, if_neg (by simpa using hall), bind_ok] at hpairs
        obtain ⟨entries, h, -⟩ := hpairs
        exact ⟨entries, h⟩
      obtain ⟨entries, hentries⟩ := hentries
      have hwritten := mapM_readEntry.1 hentries
      rw [readPairs_listed hall hwritten] at hpairs
      split at hpairs
      next htotal =>
        cases hpairs
        exact ⟨(DeckEntry.length_expand entries).trans htotal,
          fun x => Head.declares_of_expand hwritten, fun h => absurd h hall,
          fun _ => ⟨entries, hwritten, rfl⟩⟩
      next => cases hpairs
  obtain ⟨hlength, hdeclares, hall, hlisted⟩ := hread
  have hsize : (number pairs).length = head.size := (length_number pairs).trans hlength
  have hmem : ∀ c ∈ number pairs, head.Declares (c.face, c.group) := fun c hc =>
    hdeclares _ (mem_of_mem_number hc)
  refine ⟨rfl, rfl, rfl, rfl, hsize, hsize ▸ hhead.size_le, fun i c => id_of_getElem?_number,
    fun c hc => (hmem c hc).1, fun c hc => (hmem c hc).2.1, fun c hc => (hmem c hc).2.2, ?_, ?_⟩
  · intro h
    rw [attributes_number, hall h, allPairs_eq]
  · intro h
    obtain ⟨entries, hwritten, rfl⟩ := hlisted h
    exact ⟨entries, hwritten, attributes_number⟩

/-- The total of the entries, as a sum of a list. -/
theorem sum_quantity (entries : List DeckEntry) :
    (entries.map (·.quantity)).sum = DeckEntry.total entries := by
  rw [List.sum, List.foldr_map, DeckEntry.total]

/-- A document whose head and list of cards are in order is refused for nothing but a wrong number
of cards. -/
theorem compile_listed (hhead : head.Written doc) {cardsAt : Nat}
    (hcards : doc.find? "cards" = some cardsAt) (hlisted : doc.paramsAt cardsAt ≠ "all")
    {entries : List DeckEntry}
    (h : List.Forall₂ (DeckEntry.Written head) (doc.lines.drop (cardsAt + 1)) entries) :
    compile doc =
      if (entries.map (·.quantity)).sum = head.size then
        .ok ⟨doc.name, number (DeckEntry.expand entries), head.faces, head.groups, head.grouping⟩
      else .error (.countMismatch doc.identity "cards" head.size
        (min (entries.map (·.quantity)).sum (head.size + 1))) := by
  rw [compile_of_written hhead hcards, readPairs_listed hlisted h, sum_quantity]
  split <;> rfl

/-- Laying out a deck card by card and counting first come to the same. A deck that comes out is
what its document describes, with nothing cut off; and a list of cards in order is refused exactly
when its copies are not as many as declared, no matter how many they are. -/
theorem compile_expands (doc : Document) :
    compileStepwise doc = compile doc ∧
    (∀ d, compile doc = .ok d → ∃ head cardsAt, Head.Written doc head ∧
      doc.find? "cards" = some cardsAt ∧ Expands doc head cardsAt d) ∧
    ∀ head cardsAt entries, Head.Written doc head → doc.find? "cards" = some cardsAt →
      doc.paramsAt cardsAt ≠ "all" →
      List.Forall₂ (DeckEntry.Written head) (doc.lines.drop (cardsAt + 1)) entries →
      ((∃ document what expected found,
          compile doc = .error (.countMismatch document what expected found)) ↔
        (entries.map (·.quantity)).sum ≠ head.size) ∧
      (Succeeds (compile doc) ↔ (entries.map (·.quantity)).sum = head.size) := by
  refine ⟨compileStepwise_eq doc, ?_, ?_⟩
  · intro d h
    obtain ⟨head, cardsAt, hhead, hcards⟩ := written_of_compile h
    exact ⟨head, cardsAt, hhead, hcards, expands_of_compile hhead hcards h⟩
  · intro head cardsAt entries hhead hcards hlisted hentries
    rw [compile_listed hhead hcards hlisted hentries]
    by_cases htotal : (entries.map (·.quantity)).sum = head.size
    · simp [htotal, Succeeds]
    · simp [htotal, Succeeds]

/-- Two pennies and a dime. -/
def coins : Document :=
  ⟨.deck, "coins", ["size 3", "faces penny dime", "specify-quantity", "cards", "0, 2", "1, 1"]⟩

/-- As many pennies as a line can ask for, twice. -/
def mint : Document :=
  ⟨.deck, "mint", ["size 3", "faces penny", "specify-quantity", "cards",
    "0, 18446744073709551615", "0, 18446744073709551615"]⟩

/-- A list of cards that adds up makes a deck, and one that asks for far too many is refused. -/
theorem coins_and_mint_expand :
    Succeeds (compile coins) ∧
    ∃ document what expected found,
      compile mint = .error (.countMismatch document what expected found) := by
  have hcoins : Head.Written coins ⟨3, ["penny", "dime"], [], none, true⟩ :=
    readHead_ok.1 (by rfl)
  have hmint : Head.Written mint ⟨3, ["penny"], [], none, true⟩ := readHead_ok.1 (by rfl)
  have hpennies : List.Forall₂ (DeckEntry.Written ⟨3, ["penny", "dime"], [], none, true⟩)
      (coins.lines.drop 4) [⟨"penny", none, 2⟩, ⟨"dime", none, 1⟩] :=
    (@mapM_readEntry coins ..).1 (by rfl)
  have hmany : List.Forall₂ (DeckEntry.Written ⟨3, ["penny"], [], none, true⟩)
      (mint.lines.drop 4) (List.replicate 2 ⟨"penny", none, 18446744073709551615⟩) :=
    (@mapM_readEntry mint ..).1 (by rfl)
  exact ⟨((compile_expands coins).2.2 _ 3 _ hcoins (by rfl) (by decide) hpennies).2.2 (by decide),
    ((compile_expands mint).2.2 _ 3 _ hmint (by rfl) (by decide) hmany).1.2 (by decide)⟩

end Deck

end HouseRules
