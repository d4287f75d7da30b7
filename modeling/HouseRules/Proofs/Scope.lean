import HouseRules.Proofs.Graph.Closed
import HouseRules.Proofs.Layout
import HouseRules.Proofs.Text.Quoted
import HouseRules.Token.Writer

/-!
# Names and what they stand for

The name of a number stands for that number: of a pile declaration (`Scope.slot_nameOf`), a phase
(`Scope.phase_phaseName`) or a condition (`Scope.condition?_conditionName`). This needs no more than
what the readers of documents make sure of, that the names of one sort are different words
(`Scope.Declared`, `Layout.Named`). Names may hold any characters but white space. A quote in a name
would open quoted text where the name is written, so that names are read back from a line only if
they have none (`Scope.Unquoted`).
-/

namespace HouseRules

/-- What declares a slot is a declaration of the layout, under which the slot is found by name. -/
theorem Layout.Named.slot?_nameOf {l : Layout} (h : l.Named) {slot : Slot}
    (hslot : l.Declares slot) :
    ∃ d ∈ l.piles, l.nameOf slot = d.name ∧ l.slot? d.name = some slot := by
  obtain ⟨hlt, hbyte⟩ := hslot
  have hd : l.piles[slot.index]? = some l.piles[slot.index] := List.getElem?_eq_getElem hlt
  have hnum : Slot.ofNat slot.index = slot := congrArg Slot.mk (Nat.mod_eq_of_lt hbyte)
  refine ⟨l.piles[slot.index], List.getElem_mem hlt, ?_, ?_⟩
  · rw [nameOf, declaration?, hd, Option.map_some, Option.getD_some]
  · rw [h.slot?_eq hd, hnum]

namespace Scope

variable {s : Scope}

/-- The names of phases and of conditions are different words. -/
structure Declared (s : Scope) : Prop where
  phases : s.phases.Nodup
  isWord_phase : ∀ name ∈ s.phases, Text.IsWord name
  conditions : s.conditions.Nodup
  isWord_condition : ∀ name ∈ s.conditions, Text.IsWord name

/-- No name of a pile, a phase or a condition holds a quote. -/
structure Unquoted (s : Scope) : Prop where
  pile : ∀ d ∈ s.layout.piles, '"' ∉ d.name.toList
  phase : ∀ name ∈ s.phases, '"' ∉ name.toList
  condition : ∀ name ∈ s.conditions, '"' ∉ name.toList

/-- The scope of a rules document has different words for names. -/
theorem declared_of_readScope {doc : Document} {l : Layout} {aliases : List Alias}
    {records : Graph.Records} (h : Graph.readScope doc l aliases records = .ok s) : s.Declared := by
  obtain ⟨-, -, -, -, -, hconditions, hphases⟩ := Graph.readScope_ok h
  obtain ⟨hcondition, hnodup⟩ := Graph.declare_ok hconditions
  obtain ⟨hphase, hnodup'⟩ := Graph.declare_ok hphases
  refine ⟨hnodup', ?_, hnodup, ?_⟩
  · intro name hname
    obtain ⟨header, -, hread⟩ := exists_of_mem_forall₂ hphase hname
    refine Text.isWord_of_mem_words (s := header) ?_
    rw [Record.plainName_ok.1 hread]
    exact List.mem_singleton_self name
  · intro name hname
    obtain ⟨header, -, hread⟩ := exists_of_mem_forall₂ hcondition hname
    obtain ⟨negated, hread⟩ := Graph.conditionName_ok hread
    refine Text.isWord_of_mem_words (s := header) ?_
    rw [Record.negatableName_ok.1 hread]
    cases negated <;> simp

/-- In a list of different names each is found at its own place. -/
theorem place?_getElem {names : List String} (h : names.Nodup) {i : Nat} (hi : i < names.length) :
    place? names names[i] = some i := by
  rw [place?, List.findIdx?_eq_some_iff_getElem]
  refine ⟨hi, beq_self_eq_true _, fun j hj heq => ?_⟩
  have hsame : j = i := (h.getElem_inj_iff).1 (beq_iff_eq.1 heq)
  omega

/-- The name of a phase stands for it. -/
theorem phase_phaseName (h : s.phases.Nodup) {id : PhaseId} (hid : id.index < s.phases.length)
    (component : String) : s.phase (s.phaseName id) component = .ok id := by
  have hname : s.phaseName id = s.phases[id.index] := by
    rw [phaseName, List.getElem?_eq_getElem hid, Option.getD_some]
  rw [phase, hname, place?_getElem h hid]
  rfl

/-- The name of a condition stands for it. -/
theorem condition?_conditionName (h : s.conditions.Nodup) {id : ConditionId}
    (hid : id.index < s.conditions.length) : s.condition? (s.conditionName id) = some id := by
  have hname : s.conditionName id = s.conditions[id.index] := by
    rw [conditionName, List.getElem?_eq_getElem hid, Option.getD_some]
  rw [condition?, hname, place?_getElem h hid]
  rfl

/-! ## Names in a line -/

/-- A word without quotes can be written into a line as it is. -/
theorem isPlain_of_isWord {name : String} (h : Text.IsWord name) (hquote : '"' ∉ name.toList) :
    Text.IsPlain name := by
  intro c hc
  refine ⟨h.2 c hc, ?_⟩
  rintro rfl
  exact hquote hc

/-- The name of a declared pile can be written into a line as it is. -/
theorem isPlain_nameOf (h : s.layout.Named) (hquotes : s.Unquoted) {slot : Slot}
    (hslot : s.layout.Declares slot) : Text.IsPlain (s.layout.nameOf slot) := by
  obtain ⟨d, hd, hname, -⟩ := h.slot?_nameOf hslot
  rw [hname]
  exact isPlain_of_isWord (h.isName d hd).1 (hquotes.pile d hd)

/-- The name of a phase can be written into a line as it is. -/
theorem isPlain_phaseName (h : s.Declared) (hquotes : s.Unquoted) {id : PhaseId}
    (hid : id.index < s.phases.length) : Text.IsPlain (s.phaseName id) := by
  rw [phaseName, List.getElem?_eq_getElem hid, Option.getD_some]
  have hmem := List.getElem_mem hid
  exact isPlain_of_isWord (h.isWord_phase _ hmem) (hquotes.phase _ hmem)

/-- The name of a condition is a token of its own. -/
theorem isToken_conditionName (h : s.Declared) (hquotes : s.Unquoted) {id : ConditionId}
    (hid : id.index < s.conditions.length) : Text.IsToken (s.conditionName id) := by
  rw [conditionName, List.getElem?_eq_getElem hid, Option.getD_some]
  have hmem := List.getElem_mem hid
  have hword := h.isWord_condition _ hmem
  exact (isPlain_of_isWord hword (hquotes.condition _ hmem)).isToken hword.1

end Scope

end HouseRules
