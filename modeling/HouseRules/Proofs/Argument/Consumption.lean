import HouseRules.Proofs.Argument.Typing

/-!
# What parameters consume

Parameters that are left open take the supplied values from the front. `Token.Consumes` says what
one parameter takes, given what comes after it: a parameter that is not open takes nothing, an open
one takes the next value, and an open list takes the longest run of values that do for its kind and
holds what they hold, in their order. `Token.ConsumesAll` cuts a whole supply among parameters, a
part for each of them and a rest, and that is just how values are found (`Token.resolveAll_ok`).

The values past the last parameter of a variadic verb then join the value of that parameter. Nothing
of them is lost or reordered (`Value.Holds`), and they join exactly if they do for its kind
(`Token.exists_shape`, `Token.shape_fails`). That there are as many parameters as the verb takes
does not ensure it.

Reference: `ParamResolver` (specification 4.5, E4).
-/

namespace HouseRules

/-! ## Values that hold what others hold -/

namespace Value

/-- A value holds what some values hold together, in their order. -/
structure Holds (v : Value) (parts : List Value) : Prop where
  cards : v.asCards = parts.flatMap asCards
  piles : v.asPiles = parts.flatMap asPiles

variable {v : Value} {kind : Kind} {parts : List Value}

/-- A single value holds itself and nothing else. -/
theorem holds_singleton (v : Value) : v.Holds [v] :=
  ⟨(List.flatMap_singleton _ _).symm, (List.flatMap_singleton _ _).symm⟩

/-- Only cards do for a list of cards, and these hold no piles; and the other way round. -/
theorem holds_gather (harray : kind.isArray = true) (h : ∀ v ∈ parts, v.fits kind = true) :
    (gather kind parts).Holds parts := by
  have hnone : ∀ v ∈ parts,
      (kind = .cards → v.asPiles = []) ∧ (kind = .piles → v.asCards = []) := by
    intro v hv
    have hfits := h v hv
    constructor <;> rintro rfl <;> cases v <;> first | rfl | cases hfits
  cases kind with
  | cards => exact ⟨rfl, (List.flatMap_eq_nil_iff.2 fun v hv => (hnone v hv).1 rfl).symm⟩
  | piles => exact ⟨(List.flatMap_eq_nil_iff.2 fun v hv => (hnone v hv).2 rfl).symm, rfl⟩
  | _ => cases harray

/-- A list is known by its kind and by what it holds. -/
theorem Holds.eq_gather (h : v.Holds parts) (harray : v.kind.isArray = true) :
    v = gather v.kind parts := by
  cases v with
  | cards cards => exact congrArg Value.cards h.cards
  | piles ids => exact congrArg Value.piles h.piles
  | _ => cases harray

end Value

/-! ## Supplied values -/

namespace Token

variable {t : Table} {context : String} {index : Nat} {supplied rest : List Value} {kind : Kind}
  {v : Value} {values : List Value}

/-- What a parameter takes of the supplied values, and its value, where `rest` comes after that. -/
inductive Consumes (t : Table) (context : String) (rest : List Value) :
    Token → List Value → Value → Prop
  | constant {token : Token} {v : Value} (h : constant t context token = .ok v) :
    Consumes t context rest token [] v
  | single {kind : Kind} {v : Value} (hkind : kind.isArray = false) (hfits : v.fits kind = true) :
    Consumes t context rest (.placeholder kind) [v] v
  | list {kind : Kind} {run : List Value} {v : Value} (harray : kind.isArray = true)
    (hne : run ≠ []) (hfits : ∀ u ∈ run, u.fits kind = true)
    (hend : ∀ u ∈ rest.head?, u.fits kind = false) (hkind : v.kind = kind) (hholds : v.Holds run) :
    Consumes t context rest (.placeholder kind) run v

/-- What some parameters take, part by part, and their values, where `rest` is left. -/
inductive ConsumesAll (t : Table) (context : String) (rest : List Value) :
    List Token → List (List Value) → List Value → Prop
  | nil : ConsumesAll t context rest [] [] []
  | cons {token : Token} {tokens : List Token} {part : List Value} {parts : List (List Value)}
    {v : Value} {values : List Value} (h : Consumes t context (parts.flatten ++ rest) token part v)
    (hs : ConsumesAll t context rest tokens parts values) :
    ConsumesAll t context rest (token :: tokens) (part :: parts) (v :: values)

/-- Tokens, the parts they consume and the values they come to are equally many. -/
theorem ConsumesAll.length_eq {tokens : List Token} {parts : List (List Value)}
    (h : ConsumesAll t context rest tokens parts values) :
    parts.length = tokens.length ∧ values.length = tokens.length := by
  induction h with
  | nil => exact ⟨rfl, rfl⟩
  | cons _ _ ih => exact ⟨congrArg (· + 1) ih.1, congrArg (· + 1) ih.2⟩

/-- An open list stops at the first value that does not do. -/
theorem takeWhile_run {run : List Value} (hfits : ∀ u ∈ run, u.fits kind = true)
    (hend : ∀ u ∈ rest.head?, u.fits kind = false) :
    (run ++ rest).takeWhile (·.fits kind) = run ∧ (run ++ rest).dropWhile (·.fits kind) = rest := by
  have hstop : rest.takeWhile (·.fits kind) = [] ∧ rest.dropWhile (·.fits kind) = rest := by
    cases rest with
    | nil => exact ⟨rfl, rfl⟩
    | cons u rest =>
      have hu : ¬ u.fits kind = true := by simp [hend u rfl]
      exact ⟨List.takeWhile_cons_of_neg hu, List.dropWhile_cons_of_neg hu⟩
  rw [List.takeWhile_append_of_pos hfits, List.dropWhile_append_of_pos hfits, hstop.1, hstop.2]
  exact ⟨List.append_nil run, rfl⟩

/-- A placeholder succeeds just where the supplied values begin with a part that it may consume, and
leaves the values behind that part. -/
theorem take_ok : take context kind index supplied = (.ok v, rest) ↔
    ∃ part, supplied = part ++ rest ∧ Consumes t context rest (.placeholder kind) part v := by
  constructor
  · intro h
    unfold take at h
    split at h
    · cases h
    next value following =>
      split at h
      · cases h
      next hvalue =>
        have hfits : value.fits kind = true := by simpa using hvalue
        split at h
        next harray =>
          cases h
          have hrun : ∀ u ∈ (value :: following).takeWhile (·.fits kind), u.fits kind = true :=
            List.all_eq_true.1 List.all_takeWhile
          refine ⟨_, List.takeWhile_append_dropWhile.symm, .list harray ?_ hrun ?_
            (Value.kind_gather harray _) (Value.holds_gather harray hrun)⟩
          · simp [hfits]
          · intro u hu
            have hnot := List.head?_dropWhile_not (·.fits kind) (value :: following)
            rw [Option.mem_def.1 hu] at hnot
            exact hnot
        next hkind =>
          cases h
          exact ⟨[v], rfl, .single (by simpa using hkind) hfits⟩
  · rintro ⟨part, rfl, hpart⟩
    cases hpart with
    | constant h => cases h
    | single hkind hfits => simp [take, hfits, hkind]
    | list harray hne hfits hend hkind hholds =>
      obtain ⟨first, run, rfl⟩ := List.exists_cons_of_ne_nil hne
      obtain ⟨htake, hdrop⟩ := takeWhile_run hfits hend
      rw [List.cons_append] at htake hdrop
      subst hkind
      simp only [List.cons_append, take, hfits first List.mem_cons_self, harray, htake, hdrop,
        Bool.not_true, Bool.false_eq_true, if_false, if_true, ← hholds.eq_gather harray]

/-- A token succeeds just where the supplied values begin with a part that it consumes, which is
empty for one that stands for itself. -/
theorem resolve_ok {token : Token} : resolve t context index supplied token = (.ok v, rest) ↔
    ∃ part, supplied = part ++ rest ∧ Consumes t context rest token part v := by
  unfold resolve
  split
  · exact take_ok
  next token hclosed =>
    rw [Prod.mk.injEq]
    constructor
    · rintro ⟨h, rfl⟩
      exact ⟨[], rfl, .constant h⟩
    · rintro ⟨part, rfl, hpart⟩
      cases hpart with
      | constant h => exact ⟨h, rfl⟩
      | single => exact absurd rfl (hclosed _)
      | list => exact absurd rfl (hclosed _)

/-- A row of tokens succeeds just where the supplied values fall into one part for each token, in
order, and what is left over. -/
theorem resolveFrom_ok {tokens : List Token} :
    resolveFrom t context index supplied tokens = (.ok values, rest) ↔
      ∃ parts, supplied = parts.flatten ++ rest ∧
        ConsumesAll t context rest tokens parts values := by
  induction tokens generalizing index supplied values with
  | nil =>
    rw [resolveFrom, Prod.mk.injEq, Except.ok.injEq]
    constructor
    · rintro ⟨rfl, rfl⟩
      exact ⟨[], rfl, .nil⟩
    · rintro ⟨parts, rfl, hparts⟩
      cases hparts
      exact ⟨rfl, rfl⟩
  | cons token tokens ih =>
    rw [resolveFrom]
    constructor
    · intro h
      split at h
      next => cases h
      next v left hv =>
        simp only [Prod.mk.injEq, map_ok] at h
        obtain ⟨⟨vs, hvs, rfl⟩, hleft⟩ := h
        obtain ⟨parts, rfl, hparts⟩ := ih.1 (Prod.ext hvs hleft)
        obtain ⟨part, rfl, hpart⟩ := resolve_ok.1 hv
        exact ⟨part :: parts, by rw [List.flatten_cons, List.append_assoc], .cons hpart hparts⟩
    · rintro ⟨parts, rfl, hparts⟩
      cases hparts with
      | @cons _ _ part parts v vs hpart hparts =>
        have hv : resolve t context index ((part :: parts).flatten ++ rest) token =
            (.ok v, parts.flatten ++ rest) :=
          resolve_ok.2 ⟨part, by rw [List.flatten_cons, List.append_assoc], hpart⟩
        rw [hv]
        dsimp only
        rw [ih.2 ⟨parts, rfl, hparts⟩]
        rfl

/-- Values are found by cutting the supply among the parameters. -/
theorem resolveAll_ok {tokens : List Token} :
    resolveAll t context supplied tokens = (.ok values, rest) ↔
      ∃ parts, supplied = parts.flatten ++ rest ∧
        ConsumesAll t context rest tokens parts values :=
  resolveFrom_ok

end Token

/-! ## Values past the last parameter -/

/-- The values from the last parameter of a signature on can be brought to it: there is just one, or
each of them does for its kind. -/
def Signature.Joins (s : Signature) (values : List Value) : Prop :=
  values.length = s.arity ∨ ∀ v ∈ values.drop (s.arity - 1),
    ∃ kind, s.kindAt? (s.arity - 1) = some kind ∧ v.fits kind = true

namespace Token

variable {t : Table} {context : String} {supplied rest values : List Value} {tokens : List Token}
  {verb : Verb}

/-- Values that can be joined become one argument for each parameter, and nothing is lost. -/
theorem exists_shape (context : String) (hvariadic : verb.signature.variadic = true)
    (hcount : verb.signature.arity ≤ values.length) (hjoins : verb.signature.Joins values) :
    ∃ args last, shape verb context values = .ok args ∧
      args = values.take (verb.signature.arity - 1) ++ [last] ∧
      args.length = verb.signature.arity ∧
      last.Holds (values.drop (verb.signature.arity - 1)) := by
  obtain ⟨init, last, hparameters, harray⟩ := Verb.last_of_variadic hvariadic
  have harity := Signature.arity_eq hparameters
  rcases Nat.eq_or_lt_of_le hcount with hlength | hmore
  · obtain ⟨v, hdrop⟩ : ∃ v, values.drop (verb.signature.arity - 1) = [v] :=
      List.length_eq_one_iff.1 (by rw [List.length_drop]; omega)
    refine ⟨values, v, shape_eq_self fun _ => Nat.le_of_eq hlength.symm, ?_, hlength.symm,
      hdrop ▸ Value.holds_singleton v⟩
    rw [← hdrop, List.take_append_drop]
  · have hkind := Signature.kindAt?_last hparameters hvariadic
    have hfits : ∀ v ∈ values.drop (verb.signature.arity - 1), v.fits last.kind = true := by
      intro v hv
      obtain ⟨_, hkind', hfits⟩ := hjoins.resolve_left (Nat.ne_of_gt hmore) v hv
      cases hkind.symm.trans hkind'
      exact hfits
    refine ⟨_, _, (shape_eq_ok hvariadic hmore hkind).2 ⟨hfits, rfl⟩, rfl, ?_,
      Value.holds_gather harray hfits⟩
    rw [List.length_append, List.length_take_of_le (by omega), List.length_singleton]
    omega

/-- Values that cannot be joined are not brought to a variadic verb. -/
theorem shape_fails (context : String) (hvariadic : verb.signature.variadic = true)
    (hcount : verb.signature.arity ≤ values.length) (hnot : ¬ verb.signature.Joins values) :
    ∃ e, shape verb context values = .error e := by
  obtain ⟨init, last, hparameters, -⟩ := Verb.last_of_variadic hvariadic
  have hkind := Signature.kindAt?_last hparameters hvariadic
  have hmore : verb.signature.arity < values.length :=
    Nat.lt_of_le_of_ne hcount fun heq => hnot (.inl heq.symm)
  cases hshape : shape verb context values with
  | error e => exact ⟨e, rfl⟩
  | ok args =>
    obtain ⟨hfits, -⟩ := (shape_eq_ok hvariadic hmore hkind).1 hshape
    exact absurd (.inr fun v hv => ⟨last.kind, hkind, hfits v hv⟩) hnot

/-- Values that a variadic verb takes can be joined. -/
theorem joins_of_takes (hvariadic : verb.signature.variadic = true)
    (h : verb.signature.Takes values) : verb.signature.Joins values := by
  obtain ⟨init, last, hparameters, -⟩ := Verb.last_of_variadic hvariadic
  have hkind := Signature.kindAt?_last hparameters hvariadic
  exact .inr fun v hv => ⟨last.kind, hkind, h.fits_last hparameters hvariadic v hv⟩

/-- **Supplied values are consumed in order.** Let values be found for some parameters. Then the
supply is cut into a part for each parameter, in their order, and the rest that is left over: a
parameter that is not open takes no value, an open one takes one, which is its value, and an open
list takes all up to the first that does not do for its kind, and holds what they hold.

Let a variadic verb take as many parameters. If the values from its last parameter on are just one,
or each does for the kind of that parameter, there are as many arguments as parameters: the earlier
values as they are, and one that holds what the others hold, in their order. That is so for
parameters that the verb admits. Otherwise there are no arguments. -/
theorem consumed_in_order (h : resolveAll t context supplied tokens = (.ok values, rest)) :
    (∃ parts, supplied = parts.flatten ++ rest ∧
      ConsumesAll t context rest tokens parts values) ∧
    ∀ verb : Verb, verb.signature.variadic = true →
      verb.signature.accepts tokens.length = true →
      (verb.signature.Joins values → ∃ args last,
        arguments t context verb supplied tokens = (.ok args, rest) ∧
        args = values.take (verb.signature.arity - 1) ++ [last] ∧
        args.length = verb.signature.arity ∧
        last.Holds (values.drop (verb.signature.arity - 1))) ∧
      (¬ verb.signature.Joins values →
        ∃ e, arguments t context verb supplied tokens = (.error e, rest)) ∧
      (verb.Admits tokens → verb.signature.Joins values) := by
  obtain ⟨parts, hsupplied, hparts⟩ := resolveAll_ok.1 h
  refine ⟨⟨parts, hsupplied, hparts⟩, fun verb hvariadic haccepts => ?_⟩
  have harguments : arguments t context verb supplied tokens =
      (shape verb context values, rest) := by
    unfold arguments
    rw [haccepts, h]
    rfl
  have hcount : verb.signature.arity ≤ values.length := by
    rw [hparts.length_eq.2]
    simpa [Signature.accepts, hvariadic] using haccepts
  rw [harguments]
  refine ⟨fun hjoins => ?_, fun hnot => ?_, fun hadmits => ?_⟩
  · obtain ⟨args, last, hargs, hvalues⟩ := exists_shape context hvariadic hcount hjoins
    exact ⟨args, last, by rw [hargs], hvalues⟩
  · obtain ⟨e, he⟩ := shape_fails context hvariadic hcount hnot
    exact ⟨e, by rw [he]⟩
  · exact joins_of_takes hvariadic (takes_resolveAll hadmits (congrArg Prod.fst h))

/-- Two cards on a pile, and an empty pile. -/
def drawAndDiscard : Table :=
  .fresh ⟨[⟨"draw", ⟨0⟩, none, {}, [⟨1, "a", none⟩, ⟨2, "b", none⟩]⟩,
    ⟨"discard", ⟨1⟩, none, {}, []⟩], []⟩ [.seated "ann" []] .clockwise (.ofSeed 0)

/-- The upper card, a card and cards. -/
def topAndOpen : List Token := [.top ⟨⟨0⟩, .current⟩, .placeholder .card, .placeholder .cards]

/-- Three cards in different forms, and a number. -/
def threeCards : List Value :=
  [.card ⟨3, "c", none⟩, .card ⟨4, "d", none⟩, .cards [⟨5, "e", none⟩], .integer 7]

/-- The card on the pile takes nothing, an open card the first of the supplied ones, and open cards
all that follow up to a number. -/
theorem topAndOpen_consumed_in_order :
    resolveAll drawAndDiscard "match" threeCards topAndOpen =
      (.ok [.card ⟨2, "b", none⟩, .card ⟨3, "c", none⟩, .cards [⟨4, "d", none⟩, ⟨5, "e", none⟩]],
        [.integer 7]) ∧
    ∃ last, arguments drawAndDiscard "match" .alike threeCards topAndOpen =
        (.ok [last], [.integer 7]) ∧
      last.asCards = [⟨2, "b", none⟩, ⟨3, "c", none⟩, ⟨4, "d", none⟩, ⟨5, "e", none⟩] := by
  have hvalues : resolveAll drawAndDiscard "match" threeCards topAndOpen =
      (.ok [.card ⟨2, "b", none⟩, .card ⟨3, "c", none⟩, .cards [⟨4, "d", none⟩, ⟨5, "e", none⟩]],
        [.integer 7]) := rfl
  obtain ⟨-, harguments⟩ := consumed_in_order hvalues
  obtain ⟨hjoined, -, -⟩ := harguments .alike rfl rfl
  have hcards : ∀ v ∈ [Value.card ⟨2, "b", none⟩, .card ⟨3, "c", none⟩,
      .cards [⟨4, "d", none⟩, ⟨5, "e", none⟩]], v.fits .cards = true := by decide
  obtain ⟨args, last, hargs, rfl, -, hholds⟩ :=
    hjoined (.inr fun v hv => ⟨.cards, rfl, hcards v hv⟩)
  exact ⟨hvalues, last, hargs, hholds.cards⟩

/-- Two lists of piles are as many parameters as cards that are compared may be, and their values
are found, but these do not become arguments. -/
theorem pileLists_not_alike :
    resolveAll drawAndDiscard "match" [] [.piles ⟨0⟩, .piles ⟨1⟩] =
        (.ok [.piles [⟨0⟩], .piles [⟨1⟩]], []) ∧
      Verb.alike.signature.variadic = true ∧ Verb.alike.signature.accepts 2 = true ∧
      arguments drawAndDiscard "match" .alike [] [.piles ⟨0⟩, .piles ⟨1⟩] =
        (.error (unresolved "match" "match" "variadic parameter is not an array"), []) :=
  ⟨rfl, rfl, rfl, rfl⟩

end Token

end HouseRules
