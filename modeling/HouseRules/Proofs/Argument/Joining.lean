import HouseRules.Proofs.Argument

/-!
# Joining values

A list value of a kind is what some values that do for it hold together, in their order
(`Value.gather`). Making a value a list, appending another one to it and joining all that follows
the last parameter of a variadic verb are the same thing, with one, two or more values. So values
are brought to a variadic verb exactly if those from its last parameter on do for its kind, and then
they are gathered there (`Token.shape_eq_ok`).
-/

namespace HouseRules

/-! ## Lists of values -/

namespace Value

variable {v w other : Value} {kind : Kind}

/-- Values gathered under an array kind are a value of that kind. -/
theorem kind_gather (harray : kind.isArray = true) (values : List Value) :
    (gather kind values).kind = kind := by
  cases kind <;> first | rfl | cases harray

/-- A value of an array kind is what it is gathered to by itself. -/
theorem gather_singleton (harray : kind.isArray = true) (hv : v.kind = kind) :
    gather kind [v] = v := by
  subst hv
  cases v with
  | cards cards => exact congrArg Value.cards (List.flatMap_singleton asCards (.cards cards))
  | piles ids => exact congrArg Value.piles (List.flatMap_singleton asPiles (.piles ids))
  | _ => cases harray

/-- What has been gathered can be gathered further. -/
theorem gather_cons_gather (harray : kind.isArray = true) (parts extras : List Value) :
    gather kind (gather kind parts :: extras) = gather kind (parts ++ extras) := by
  cases kind with
  | cards | piles => simp [gather, asCards, asPiles]
  | _ => cases harray

/-- A value becomes one of an array kind just where it fits that kind, and then as the array of it
alone. -/
theorem coerce?_eq_some (harray : kind.isArray = true) :
    v.coerce? kind = some w ↔ v.fits kind = true ∧ w = gather kind [v] := by
  unfold coerce?
  cases v.fits kind <;> simp [harray, eq_comm]

/-- A further value joins an array just where it fits the array's kind, and is put behind. -/
theorem merge?_eq_some (harray : kind.isArray = true) (hv : v.kind = kind) :
    v.merge? other = some w ↔ other.fits kind = true ∧ w = gather kind [v, other] := by
  subst hv
  unfold merge?
  cases other.fits v.kind <;> simp [harray, eq_comm]

end Value

/-! ## Variadic signatures -/

namespace Signature

variable {s : Signature} {init : List Parameter} {last : Parameter}

/-- The arity counts the last parameter like the others. -/
theorem arity_eq (hs : s.parameters = init ++ [last]) : s.arity = init.length + 1 := by
  rw [arity, hs, List.length_append, List.length_singleton]

/-- From the last parameter of a variadic signature on every argument has its kind. -/
theorem kindAt?_of_variadic (hs : s.parameters = init ++ [last]) (hvariadic : s.variadic = true)
    {i : Nat} (hi : init.length ≤ i) : s.kindAt? i = some last.kind := by
  simp only [kindAt?, parameterAt?, hs, hvariadic]
  rcases Nat.eq_or_lt_of_le hi with rfl | hi
  · simp
  · rw [List.getElem?_eq_none (by simp; omega)]
    simp

/-- The last parameter of a verb that takes any number of values has its declared kind. -/
theorem kindAt?_last (hs : s.parameters = init ++ [last]) (hvariadic : s.variadic = true) :
    s.kindAt? (s.arity - 1) = some last.kind :=
  kindAt?_of_variadic hs hvariadic (by rw [arity_eq hs]; exact Nat.le_refl _)

end Signature

/-- The last parameter of a variadic verb is a list. -/
theorem Verb.last_of_variadic {verb : Verb} (h : verb.signature.variadic = true) :
    ∃ init last, verb.signature.parameters = init ++ [last] ∧ last.kind.isArray = true := by
  cases verb <;> first
    | exact ⟨[], _, rfl, rfl⟩
    | exact ⟨[_, _], _, rfl, rfl⟩
    | cases h

/-! ## Shaping values to a signature -/

namespace Token

variable {context : String} {verb : Verb} {kind : Kind} {values args : List Value}

/-- Further values join a list if all of them do for its kind. -/
theorem joinExtras_eq_ok {index : Nat} {joined out : Value} {extras : List Value}
    (harray : kind.isArray = true) (hjoined : joined.kind = kind) :
    joinExtras verb kind index joined extras = .ok out ↔
      (∀ v ∈ extras, v.fits kind = true) ∧ out = Value.gather kind (joined :: extras) := by
  induction extras generalizing index joined with
  | nil =>
    rw [joinExtras, Value.gather_singleton harray hjoined, Except.ok.injEq, eq_comm]
    simp
  | cons extra extras ih =>
    have hkind := Value.kind_gather harray [joined, extra]
    simp only [joinExtras, bind_ok, orFail_eq_ok, Value.merge?_eq_some harray hjoined,
      List.forall_mem_cons]
    constructor
    · rintro ⟨_, ⟨hextra, rfl⟩, hout⟩
      rw [ih hkind, Value.gather_cons_gather harray] at hout
      exact ⟨⟨hextra, hout.1⟩, hout.2⟩
    · rintro ⟨⟨hextra, hextras⟩, rfl⟩
      refine ⟨_, ⟨hextra, rfl⟩, (ih hkind).2 ⟨hextras, ?_⟩⟩
      rw [Value.gather_cons_gather harray]
      rfl

/-- As many values as there are parameters stay as they are, and so do those of verbs that are not
variadic. -/
theorem shape_eq_self (h : verb.signature.variadic = true → values.length ≤ verb.signature.arity) :
    shape verb context values = .ok values := by
  have hfew :
      (!verb.signature.variadic || decide (values.length ≤ verb.signature.arity)) = true := by
    cases hvariadic : verb.signature.variadic with
    | false => rfl
    | true => simp [h hvariadic]
  unfold shape
  simp only [hfew, if_true]
  rfl

/-- More values than there are parameters: those from the last parameter on become one. -/
theorem shape_eq_ok (hvariadic : verb.signature.variadic = true)
    (hmore : verb.signature.arity < values.length)
    (hkind : verb.signature.kindAt? (verb.signature.arity - 1) = some kind) :
    shape verb context values = .ok args ↔
      (∀ v ∈ values.drop (verb.signature.arity - 1), v.fits kind = true) ∧
        args = values.take (verb.signature.arity - 1) ++
          [Value.gather kind (values.drop (verb.signature.arity - 1))] := by
  obtain ⟨init, last, hparameters, harray⟩ := Verb.last_of_variadic hvariadic
  cases hkind.symm.trans (Signature.kindAt?_last hparameters hvariadic)
  have harity := Signature.arity_eq hparameters
  have hlast : verb.signature.arity - 1 < values.length := by omega
  have hdrop : values.drop (verb.signature.arity - 1) =
      values[verb.signature.arity - 1] :: values.drop verb.signature.arity := by
    rw [List.drop_eq_getElem_cons hlast, Nat.sub_add_cancel (by omega)]
  unfold shape
  simp only [hvariadic, Nat.not_le.2 hmore, hkind, List.getElem?_eq_getElem hlast, hdrop,
    Bool.not_true, Bool.false_or, decide_false, Bool.false_eq_true, if_false, Option.getD_some,
    Option.bind_some, bind_ok, orFail_eq_ok, pure_ok, Value.coerce?_eq_some harray,
    List.forall_mem_cons]
  constructor
  · rintro ⟨_, ⟨hfirst, rfl⟩, joined, hjoined, rfl⟩
    rw [joinExtras_eq_ok harray (Value.kind_gather harray _),
      Value.gather_cons_gather harray] at hjoined
    exact ⟨⟨hfirst, hjoined.1⟩, by rw [hjoined.2]; rfl⟩
  · rintro ⟨⟨hfirst, hextras⟩, rfl⟩
    refine ⟨_, ⟨hfirst, rfl⟩, _, (joinExtras_eq_ok harray (Value.kind_gather harray _)).2
      ⟨hextras, rfl⟩, ?_⟩
    rw [Value.gather_cons_gather harray]
    rfl

end Token

end HouseRules
