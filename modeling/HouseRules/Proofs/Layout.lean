import HouseRules.Layout.Reader
import HouseRules.Proofs.Document
import HouseRules.Proofs.Text.Words

/-!
# The names of a board document

A declared name is one word without the characters that the tokens of a rule put between names, and
no two declarations have the same (`Layout.named_of_compile`). So a name has one slot, that of its
declaration (`Layout.Named.slot?_eq`).
-/

namespace HouseRules.Layout

/-- A text is a name for a pile: a word in which a token can tell the name from what stands
around it. -/
def IsName (name : String) : Prop :=
  Text.IsWord name ∧ '.' ∉ name.toList ∧ '@' ∉ name.toList

/-- Every declaration of a layout has a name of its own. -/
structure Named (l : Layout) : Prop where
  nodup : (l.piles.map (·.name)).Nodup
  isName : ∀ d ∈ l.piles, IsName d.name

variable {doc : Document} {l : Layout}

/-- A declaration adds a name that no other has. -/
theorem readDeclaration_ok {piles piles' : List PileDeclaration} {opener : Nat}
    (h : readDeclaration doc piles opener = .ok piles') :
    ∃ d, piles' = piles ++ [d] ∧ IsName d.name ∧ d.name ∉ piles.map (·.name) ∧
      doc.paramsAt opener = d.name := by
  simp only [readDeclaration, bind_ok, guard_ok, pure_ok] at h
  obtain ⟨name, hname, hword, hnew, policy, -, rfl⟩ := h
  rw [Bool.or_eq_true, not_or] at hword
  obtain ⟨hchars, hlength⟩ := hword
  have hchars : ∀ c ∈ name.toList, c ≠ '.' ∧ c ≠ '@' := by simpa using hchars
  have hlength : (Text.words name).length = 1 := by simpa using hlength
  have hone : Text.IsWord name := by
    rw [← (Document.requireParamsAt_ok.1 hname).1, Document.paramsAt] at hlength ⊢
    split at hlength
    · exact Text.isWord_afterFirstWord hlength
    · cases hlength
  refine ⟨⟨name, policy⟩, rfl, ⟨hone, fun hc => (hchars _ hc).1 rfl, fun hc => (hchars _ hc).2 rfl⟩,
    fun hmem => ?_, (Document.requireParamsAt_ok.1 hname).1⟩
  obtain ⟨d, hd, rfl⟩ := List.mem_map.1 hmem
  exact hnew (List.any_eq_true.2 ⟨d, hd, beq_self_eq_true _⟩)

/-- The layout section declares no piles. -/
theorem piles_readSection {l' : Layout} {opener : Nat} (h : readSection doc l opener = .ok l') :
    l'.piles = l.piles := by
  refine foldlM_keeps (fun l' => l'.piles = l.piles) (fun l₁ index l₂ h₁ h₂ => ?_) rfl h
  unfold readSectionLine at h₂
  dsimp only at h₂
  split at h₂
  case h_4 | h_5 =>
    obtain ⟨slots, -, h₂⟩ := bind_ok.1 h₂
    exact pure_ok.1 h₂ ▸ h₁
  case h_6 => cases h₂
  all_goals exact pure_ok.1 h₂ ▸ h₁

/-- The piles of a layout are the declarations of its document. -/
theorem piles_of_compile (h : compile doc = .ok l) :
    (doc.positions "cardpile").foldlM (readDeclaration doc) [] = .ok l.piles := by
  simp only [compile, guard_ok, bind_ok] at h
  obtain ⟨-, piles, hpiles, h⟩ := h
  have hsame : l.piles = piles := by
    split at h <;> obtain ⟨declared, hsection, h⟩ := bind_ok.1 h <;> cases pure_ok.1 h
    · exact piles_readSection hsection
    · cases pure_ok.1 hsection
      rfl
  rw [hpiles, hsame]

/-- In a layout that is compiled every declaration has a name of its own. -/
theorem named_of_compile (h : compile doc = .ok l) : l.Named := by
  have hnamed : (l.piles.map (·.name)).Nodup ∧ ∀ d ∈ l.piles, IsName d.name := by
    refine foldlM_keeps
      (fun ps : List PileDeclaration => (ps.map (·.name)).Nodup ∧ ∀ d ∈ ps, IsName d.name)
      (fun ps opener ps' hps hstep => ?_) (by simp) (piles_of_compile h)
    obtain ⟨d, rfl, hname, hnew, -⟩ := readDeclaration_ok hstep
    refine ⟨?_, ?_⟩
    · rw [List.map_append, List.map_singleton, List.nodup_append_comm, List.singleton_append]
      exact List.nodup_cons.2 ⟨hnew, hps.1⟩
    · intro d' hd'
      rcases List.mem_append.1 hd' with hd' | hd'
      · exact hps.2 d' hd'
      · rw [List.mem_singleton.1 hd']
        exact hname
  exact ⟨hnamed.1, hnamed.2⟩

/-- A name is written on the line that declares it. -/
theorem exists_line_of_compile (h : compile doc = .ok l) :
    ∀ d ∈ l.piles, ∃ line ∈ doc.lines, d.name.toList ⊆ line.toList := by
  refine foldlM_keeps
    (fun ps : List PileDeclaration => ∀ d ∈ ps, ∃ line ∈ doc.lines, d.name.toList ⊆ line.toList)
    (fun ps opener ps' hps hstep => ?_) (by simp) (piles_of_compile h)
  obtain ⟨d, rfl, hname, -, hparams⟩ := readDeclaration_ok hstep
  intro d' hd'
  rcases List.mem_append.1 hd' with hd' | hd'
  · exact hps d' hd'
  rw [List.mem_singleton.1 hd', ← hparams, Document.paramsAt]
  split
  next line hline => exact ⟨line, List.mem_of_getElem? hline, Text.afterFirstWord_subset line⟩
  next hline =>
    rw [Document.paramsAt, hline] at hparams
    exact absurd hparams.symm hname.1.1

/-- The slot of a declaration's name is the declaration's place. -/
theorem Named.slot?_eq (h : l.Named) {i : Nat} {d : PileDeclaration} (hd : l.piles[i]? = some d) :
    l.slot? d.name = some (.ofNat i) := by
  rw [slot?, Option.map_eq_some_iff]
  refine ⟨i, List.findIdx?_eq_some_iff_getElem.2 ?_, rfl⟩
  obtain ⟨hi, rfl⟩ := List.getElem?_eq_some_iff.1 hd
  refine ⟨hi, beq_self_eq_true _, fun j hj heq => ?_⟩
  have hsame : l.piles[j]?.map (·.name) = l.piles[i]?.map (·.name) := by
    rw [List.getElem?_eq_getElem (Nat.lt_trans hj hi), hd, Option.map_some, Option.map_some,
      beq_iff_eq.1 heq]
  rw [← List.getElem?_map, ← List.getElem?_map] at hsame
  have hlt : j < (l.piles.map (·.name)).length := by
    rw [List.length_map]
    exact Nat.lt_trans hj hi
  exact absurd ((List.getElem?_inj hlt h.nodup).1 hsame) (Nat.ne_of_lt hj)

end HouseRules.Layout
