import HouseRules.Proofs.Argument.Joining
import HouseRules.Proofs.Graph.Compile

/-!
# Compiled calls are well typed

The kinds of the parameters of a call are checked once, when the rules are read. Here it is shown
that this is enough: the values found for admitted parameters do for the signature of the verb
(`Token.arguments_fit`), and a call whose values do is carried out unless a value is not of the game
(`Operation.dispatch_of_fits`). What is left to go wrong is what the parameters themselves ask for,
a value that nobody supplies or that does not do, or a card of an empty pile (`Token.Fails`).

Reference: `tokens.parse_params`, `ParamResolver.arguments`, `OperationResolver.dispatch`
(specification 4.2, E2.4, E3).
-/

namespace HouseRules

/-! ## Kinds -/

namespace Kind

/-- A kind satisfies itself and, for a single card or pile, the kind of an array of these. -/
theorem satisfies_iff {given wanted : Kind} :
    given.satisfies wanted = true ↔
      given = wanted ∨ (given = .card ∧ wanted = .cards) ∨ (given = .pile ∧ wanted = .piles) := by
  simp only [satisfies, Bool.or_eq_true, Bool.and_eq_true, beq_iff_eq, or_assoc]

/-- What satisfies a kind satisfies whatever that kind satisfies. -/
theorem satisfies_trans {a b c : Kind} (hab : a.satisfies b = true) (hbc : b.satisfies c = true) :
    a.satisfies c = true := by
  rw [satisfies_iff] at *
  rcases hab with rfl | ⟨rfl, rfl⟩ | ⟨rfl, rfl⟩
  · exact hbc
  · rcases hbc with rfl | ⟨h, -⟩ | ⟨h, -⟩
    · exact .inr (.inl ⟨rfl, rfl⟩)
    · cases h
    · cases h
  · rcases hbc with rfl | ⟨h, -⟩ | ⟨h, -⟩
    · exact .inr (.inr ⟨rfl, rfl⟩)
    · cases h
    · cases h

end Kind

/-! ## Values -/

namespace Value

/-- Every value fits its own kind. -/
theorem fits_kind (v : Value) : v.fits v.kind = true := Kind.satisfies_iff.2 (.inl rfl)

/-! ### Belonging to the game -/

variable {t : Table} {phases : Nat}

/-- The piles in a value that belongs to the table are on the board. -/
theorem asPiles_lt {v : Value} (h : v.belongs t phases = true) {id : PileId}
    (hid : id ∈ v.asPiles) : id.index < t.board.size := by
  cases v with
  | pile other =>
    cases List.mem_singleton.1 hid
    exact of_decide_eq_true h
  | piles ids => exact of_decide_eq_true (List.all_eq_true.1 h id hid)
  | _ => cases hid

/-- What values of the game hold together is of the game. -/
theorem belongs_gather {kind : Kind} {values : List Value}
    (h : ∀ v ∈ values, v.belongs t phases = true) :
    (gather kind values).belongs t phases = true := by
  unfold gather
  split
  · refine List.all_eq_true.2 fun id hid => decide_eq_true ?_
    obtain ⟨v, hv, hid⟩ := List.mem_flatMap.1 hid
    exact asPiles_lt (h v hv) hid
  · rfl

end Value

/-! ## Single parameters -/

namespace Token

variable {t : Table} {context : String} {l : Layout} {phases : Nat}

/-- A parameter cannot be given a value: it is open and nobody supplies one, or one that does not
do, or it is a card at an end of a pile that is empty. -/
inductive Fails (t : Table) (context : String) (index : Nat) :
    Token → List Value → RuntimeError → Prop
  | missing (kind : Kind) : Fails t context index (.placeholder kind) []
      (.unusableArgument context kind.keyword "no value supplied")
  | unfit {kind : Kind} {value : Value} (rest : List Value) (h : value.fits kind = false) :
      Fails t context index (.placeholder kind) (value :: rest)
        (.wrongArgumentKind context index kind.keyword value.kind.keyword)
  | top {selector : PileSelector} {id : PileId} {pile : Pile} (supplied : List Value)
      (hid : t.select? selector = some id) (hpile : t.board.pile? id = some pile)
      (hempty : pile.cards = []) : Fails t context index (.top selector) supplied
        (.unusableArgument context ("top." ++ pile.name) "pile is empty")
  | bottom {selector : PileSelector} {id : PileId} {pile : Pile} (supplied : List Value)
      (hid : t.select? selector = some id) (hpile : t.board.pile? id = some pile)
      (hempty : pile.cards = []) : Fails t context index (.bottom selector) supplied
        (.unusableArgument context ("bottom." ++ pile.name) "pile is empty")

/-- A declared pile is found. -/
theorem selected_ok (context : String) (ht : t.SetFor l) {selector : PileSelector}
    (h : l.Declares selector.slot) :
    ∃ id, t.select? selector = some id ∧ id.index < t.board.size ∧
      selected t context selector = .ok id := by
  obtain ⟨id, hid, hlt⟩ := ht.exists_select? h
  exact ⟨id, hid, hlt, orFail_eq_ok.2 hid⟩

/-- And so is what is on it. -/
theorem selectedPile_ok (context : String) (ht : t.SetFor l) {selector : PileSelector}
    (h : l.Declares selector.slot) :
    ∃ id pile, t.select? selector = some id ∧ t.board.pile? id = some pile ∧
      selectedPile t context selector = .ok pile := by
  obtain ⟨id, hid, hlt, hok⟩ := selected_ok context ht h
  obtain ⟨pile, hpile⟩ := Board.exists_pile? hlt
  exact ⟨id, pile, hid, hpile, bind_ok.2 ⟨id, hok, orFail_eq_ok.2 hpile⟩⟩

/-- The value of a parameter that is not open is of the parameter's kind. -/
theorem kind_constant {token : Token} {v : Value} (h : constant t context token = .ok v) :
    v.kind = token.kind := by
  cases token with
  | placeholder kind => cases h
  | pile selector | contents selector =>
    simp only [constant, bind_ok, pure_ok] at h
    obtain ⟨_, -, rfl⟩ := h
    rfl
  | top selector | bottom selector =>
    simp only [constant, bind_ok, pure_ok] at h
    obtain ⟨_, -, _, -, rfl⟩ := h
    rfl
  | _ =>
    cases h
    rfl

/-- The value of a parameter that is not open is of the game. -/
theorem belongs_constant (ht : t.SetFor l) {token : Token} (htoken : token.Closed l phases)
    {v : Value} (h : constant t context token = .ok v) : v.belongs t phases = true := by
  cases token with
  | player who =>
    cases h
    exact decide_eq_true (ht.seatOf_lt who)
  | pile selector =>
    obtain ⟨id, -, hlt, hok⟩ := selected_ok context ht htoken
    rw [constant, hok] at h
    cases h
    exact decide_eq_true hlt
  | piles slot =>
    cases h
    exact List.all_eq_true.2 fun id hid => decide_eq_true (Board.lt_of_mem_idsWhere hid)
  | phase id =>
    cases h
    exact decide_eq_true htoken
  | placeholder kind => cases h
  | contents selector =>
    simp only [constant, bind_ok, pure_ok] at h
    obtain ⟨_, -, rfl⟩ := h
    rfl
  | top selector | bottom selector =>
    simp only [constant, bind_ok, pure_ok] at h
    obtain ⟨_, -, _, -, rfl⟩ := h
    rfl
  | _ =>
    cases h
    rfl

/-- A parameter that is not open fails on an empty pile only. -/
theorem fails_of_constant (ht : t.SetFor l) {token : Token} (htoken : token.Closed l phases)
    (hopen : token.isPlaceholder = false) {index : Nat} {supplied : List Value} {e : RuntimeError}
    (h : constant t context token = .error e) : token.Fails t context index supplied e := by
  cases token with
  | placeholder kind => cases hopen
  | pile selector =>
    obtain ⟨id, -, -, hok⟩ := selected_ok context ht htoken
    rw [constant, hok] at h
    cases h
  | contents selector =>
    obtain ⟨id, pile, -, -, hok⟩ := selectedPile_ok context ht htoken
    rw [constant, hok] at h
    cases h
  | top selector =>
    obtain ⟨id, pile, hid, hpile, hok⟩ := selectedPile_ok context ht htoken
    rw [constant, hok, bind_error] at h
    obtain h | ⟨_, heq, h⟩ := h
    · cases h
    · cases heq
      rw [bind_error, orFail_eq_error] at h
      obtain ⟨hnone, rfl⟩ | ⟨_, -, h⟩ := h
      · exact .top supplied hid hpile (List.getLast?_eq_none_iff.1 hnone)
      · cases h
  | bottom selector =>
    obtain ⟨id, pile, hid, hpile, hok⟩ := selectedPile_ok context ht htoken
    rw [constant, hok, bind_error] at h
    obtain h | ⟨_, heq, h⟩ := h
    · cases h
    · cases heq
      rw [bind_error, orFail_eq_error] at h
      obtain ⟨hnone, rfl⟩ | ⟨_, -, h⟩ := h
      · exact .bottom supplied hid hpile (List.head?_eq_none_iff.1 hnone)
      · cases h
  | _ => cases h

/-- What an open parameter takes does for its kind. -/
theorem fits_take {kind : Kind} {index : Nat} {supplied : List Value} {v : Value}
    (h : (take context kind index supplied).1 = .ok v) : v.fits kind = true := by
  unfold take at h
  split at h
  · cases h
  · split at h
    · cases h
    next hfits =>
      split at h
      next harray =>
        cases h
        rw [Value.fits, Value.kind_gather harray]
        exact Kind.satisfies_iff.2 (.inl rfl)
      next =>
        cases h
        simpa using hfits

/-- What an open parameter takes is made of what is supplied. -/
theorem belongs_take {kind : Kind} {index : Nat} {supplied : List Value}
    (hsupplied : ∀ v ∈ supplied, v.belongs t phases = true) {v : Value}
    (h : (take context kind index supplied).1 = .ok v) : v.belongs t phases = true := by
  unfold take at h
  split at h
  · cases h
  · split at h
    · cases h
    · split at h
      · cases h
        exact Value.belongs_gather fun v hv => hsupplied v ((List.takeWhile_prefix _).subset hv)
      · cases h
        exact hsupplied v List.mem_cons_self

/-- Where a placeholder gets no value, the error is one of those that placeholders fail with. -/
theorem fails_of_take {kind : Kind} {index : Nat} {supplied : List Value} {e : RuntimeError}
    (h : (take context kind index supplied).1 = .error e) :
    (placeholder kind).Fails t context index supplied e := by
  unfold take at h
  split at h
  · cases h
    exact .missing kind
  · split at h
    next hfits =>
      cases h
      exact .unfit _ (by simpa using hfits)
    next => split at h <;> cases h

/-! ## Lists of parameters -/

variable {index : Nat} {supplied : List Value}

/-- What is left of the supplied values was supplied. -/
theorem resolve_subset (t : Table) (context : String) (index : Nat) (supplied : List Value)
    (token : Token) : (resolve t context index supplied token).2 ⊆ supplied := by
  unfold resolve
  split
  · unfold take
    split
    · exact List.Subset.refl _
    · split
      · exact List.Subset.refl _
      · split
        · exact (List.dropWhile_suffix _).subset
        · exact List.subset_cons_self ..
  · exact List.Subset.refl _

/-- A row of tokens succeeds where its first token does and the others do on the values left
over. -/
theorem resolveFrom_cons_ok {token : Token} {tokens : List Token} {values : List Value} :
    (resolveFrom t context index supplied (token :: tokens)).1 = .ok values ↔
      ∃ v rest vs, resolve t context index supplied token = (.ok v, rest) ∧
        (resolveFrom t context (index + 1) rest tokens).1 = .ok vs ∧ values = v :: vs := by
  rw [resolveFrom]
  split
  next e rest heq => simp [heq]
  next v rest heq =>
    simp only [heq, map_ok, Prod.mk.injEq, Except.ok.injEq]
    constructor
    · rintro ⟨vs, hvs, rfl⟩
      exact ⟨v, rest, vs, ⟨rfl, rfl⟩, hvs, rfl⟩
    · rintro ⟨_, _, vs, ⟨rfl, rfl⟩, hvs, rfl⟩
      exact ⟨vs, hvs, rfl⟩

/-- Every value does for the kind of its parameter. -/
theorem satisfies_resolveFrom {tokens : List Token} {values : List Value}
    (h : (resolveFrom t context index supplied tokens).1 = .ok values) :
    List.Forall₂ (fun token v => v.fits token.kind = true) tokens values := by
  induction tokens generalizing index supplied values with
  | nil =>
    cases h
    exact .nil
  | cons token tokens ih =>
    obtain ⟨v, rest, vs, hv, hvs, rfl⟩ := resolveFrom_cons_ok.1 h
    refine .cons ?_ (ih hvs)
    have hvalue : (resolve t context index supplied token).1 = .ok v := by rw [hv]
    unfold resolve at hvalue
    split at hvalue
    · exact fits_take hvalue
    · rw [← kind_constant hvalue]
      exact v.fits_kind

/-- If the supplied values are of the game, all values are. -/
theorem belongs_resolveFrom (ht : t.SetFor l) {tokens : List Token}
    (htokens : ∀ token ∈ tokens, token.Closed l phases)
    (hsupplied : ∀ v ∈ supplied, v.belongs t phases = true) {values : List Value}
    (h : (resolveFrom t context index supplied tokens).1 = .ok values) :
    ∀ v ∈ values, v.belongs t phases = true := by
  induction tokens generalizing index supplied values with
  | nil =>
    cases h
    exact nofun
  | cons token tokens ih =>
    obtain ⟨v, rest, vs, hv, hvs, rfl⟩ := resolveFrom_cons_ok.1 h
    have hvalue : (resolve t context index supplied token).1 = .ok v := by rw [hv]
    have hrest : rest ⊆ supplied := by
      have := resolve_subset t context index supplied token
      rwa [hv] at this
    intro w hw
    rcases List.mem_cons.1 hw with rfl | hw
    · unfold resolve at hvalue
      split at hvalue
      · exact belongs_take hsupplied hvalue
      · exact belongs_constant ht (htokens token List.mem_cons_self) hvalue
    · exact ih (fun token htoken => htokens token (List.mem_cons_of_mem _ htoken))
        (fun w hw => hsupplied w (hrest hw)) hvs w hw

/-- Parameters of which none is open take no supplied value. -/
theorem resolveFrom_of_not_open {tokens : List Token}
    (hopen : ∀ token ∈ tokens, token.isPlaceholder = false) :
    (resolveFrom t context index supplied tokens).1 =
      (resolveFrom t context index [] tokens).1 := by
  induction tokens generalizing index supplied with
  | nil => rfl
  | cons token tokens ih =>
    have hresolve : ∀ values : List Value,
        resolve t context index values token = (constant t context token, values) := by
      intro values
      have := hopen token List.mem_cons_self
      cases token <;> first | rfl | cases this
    have hrest : (resolveFrom t context (index + 1) supplied tokens).1 =
        (resolveFrom t context (index + 1) [] tokens).1 :=
      ih fun token htoken => hopen token (List.mem_cons_of_mem _ htoken)
    simp only [resolveFrom, hresolve]
    cases constant t context token with
    | error e => rfl
    | ok v => simp only [hrest]

/-- If finding values fails, it is at the first parameter that cannot be given one. -/
theorem fails_of_resolveFrom (ht : t.SetFor l) {tokens : List Token}
    (htokens : ∀ token ∈ tokens, token.Closed l phases) {e : RuntimeError}
    (h : (resolveFrom t context index supplied tokens).1 = .error e) :
    ∃ before token after values rest, tokens = before ++ token :: after ∧
      resolveFrom t context index supplied before = (.ok values, rest) ∧
      token.Fails t context (index + before.length) rest e := by
  induction tokens generalizing index supplied with
  | nil => cases h
  | cons token tokens ih =>
    unfold resolveFrom at h
    split at h
    next e' rest heq =>
      cases h
      refine ⟨[], token, tokens, [], supplied, rfl, rfl, ?_⟩
      have herror : (resolve t context index supplied token).1 = .error e := by rw [heq]
      unfold resolve at herror
      split at herror
      · exact fails_of_take herror
      next hopen =>
        refine fails_of_constant ht (htokens token List.mem_cons_self) ?_ herror
        cases token <;> first | rfl | exact absurd rfl (hopen _)
    next v rest heq =>
      have hrest : (resolveFrom t context (index + 1) rest tokens).1 = .error e := by
        cases hvalues : (resolveFrom t context (index + 1) rest tokens).1 with
        | ok values => simp [hvalues, Except.map] at h
        | error e' => simpa [hvalues, Except.map] using h
      obtain ⟨before, token', after, values, rest', rfl, hbefore, hfails⟩ :=
        ih (fun token htoken => htokens token (List.mem_cons_of_mem _ htoken)) hrest
      refine ⟨token :: before, token', after, v :: values, rest', rfl, ?_, ?_⟩
      · simp only [resolveFrom, heq, hbefore]
        rfl
      · rwa [List.length_cons, Nat.add_comm before.length, ← Nat.add_assoc]

end Token

/-! ## Shaping values to a signature -/

namespace Signature

/-- So many values may be given, and each of them does for the kind at its place. -/
structure Takes (s : Signature) (values : List Value) : Prop where
  accepts : s.accepts values.length = true
  fits : ∀ i v, values[i]? = some v → ∃ kind, s.kindAt? i = some kind ∧ v.fits kind = true

/-- There is one value for each parameter, and it does. -/
def Fits (s : Signature) (values : List Value) : Prop :=
  List.Forall₂ (fun p v => v.fits p.kind = true) s.parameters values

variable {s : Signature} {values : List Value}

/-- Below the number of parameters, the kind at a place is that of the parameter there. -/
theorem kindAt?_of_lt {i : Nat} (hi : i < s.parameters.length) :
    s.kindAt? i = some s.parameters[i].kind := by
  simp [kindAt?, parameterAt?, List.getElem?_eq_getElem hi]

/-- Values up to a parameter do for the parameters up to it. -/
theorem Takes.fits_take (h : s.Takes values) {n : Nat} (harity : n ≤ s.arity)
    (hlength : n ≤ values.length) :
    List.Forall₂ (fun p v => v.fits p.kind = true) (s.parameters.take n) (values.take n) := by
  have hparameters : n ≤ s.parameters.length := harity
  refine List.forall₂_of_length_eq_of_get (by simp; omega) fun i hi₁ hi₂ => ?_
  rw [List.length_take] at hi₁ hi₂
  have hi : i < s.parameters.length := by omega
  have hi' : i < values.length := by omega
  obtain ⟨kind, hkind, hfits⟩ := h.fits i _ (List.getElem?_eq_getElem hi')
  rw [kindAt?_of_lt hi] at hkind
  cases hkind
  simpa using hfits

/-- As many values as there are parameters fit. -/
theorem Takes.fits_of_length (h : s.Takes values) (hlength : values.length = s.arity) :
    s.Fits values := by
  have hall := h.fits_take (Nat.le_refl _) (Nat.le_of_eq hlength.symm)
  rwa [← hlength, List.take_length, hlength, arity, List.take_length] at hall

/-- From the last parameter of a variadic signature on all values do for its kind. -/
theorem Takes.fits_last (h : s.Takes values) {init : List Parameter} {last : Parameter}
    (hs : s.parameters = init ++ [last]) (hvariadic : s.variadic = true) :
    ∀ v ∈ values.drop (s.arity - 1), v.fits last.kind = true := by
  intro v hv
  have harity := arity_eq hs
  obtain ⟨i, hi⟩ := List.mem_iff_getElem?.1 hv
  rw [List.getElem?_drop] at hi
  obtain ⟨kind, hkind, hfits⟩ := h.fits _ v hi
  rw [kindAt?_of_variadic hs hvariadic (by omega)] at hkind
  cases hkind
  exact hfits

end Signature

namespace Token

variable {t : Table} {context : String} {phases : Nat} {verb : Verb} {values args : List Value}

/-- Values that a signature takes are brought to one for each parameter. -/
theorem shape_fits (context : String) (h : verb.signature.Takes values) :
    ∃ args, shape verb context values = .ok args ∧ verb.signature.Fits args := by
  by_cases hmore : verb.signature.variadic = true ∧ verb.signature.arity < values.length
  · obtain ⟨hvariadic, hlength⟩ := hmore
    obtain ⟨init, last, hparameters, harray⟩ := Verb.last_of_variadic hvariadic
    have harity := Signature.arity_eq hparameters
    have hkind := Signature.kindAt?_last hparameters hvariadic
    have hfits := h.fits_last hparameters hvariadic
    refine ⟨_, (shape_eq_ok hvariadic hlength hkind).2 ⟨hfits, rfl⟩, ?_⟩
    have hinit := h.fits_take (n := init.length) (by omega) (by omega)
    rw [hparameters, List.take_left] at hinit
    rw [Signature.Fits, hparameters, harity, Nat.add_sub_cancel]
    refine List.rel_append hinit (.cons ?_ .nil)
    rw [Value.fits, Value.kind_gather harray]
    exact Kind.satisfies_iff.2 (.inl rfl)
  · have haccepts := h.accepts
    unfold Signature.accepts at haccepts
    cases hvariadic : verb.signature.variadic
    · have hlength : values.length = verb.signature.arity := by simpa [hvariadic] using haccepts
      exact ⟨values, shape_eq_self fun _ => Nat.le_of_eq hlength, h.fits_of_length hlength⟩
    · simp only [hvariadic, if_true, decide_eq_true_eq, true_and, Nat.not_lt] at haccepts hmore
      exact ⟨values, shape_eq_self fun _ => hmore, h.fits_of_length (by omega)⟩

/-- Fitting values to a signature makes no value that does not belong to the table. -/
theorem belongs_shape (h : shape verb context values = .ok args)
    (hvalues : ∀ v ∈ values, v.belongs t phases = true) :
    ∀ v ∈ args, v.belongs t phases = true := by
  by_cases hmore : verb.signature.variadic = true ∧ verb.signature.arity < values.length
  · obtain ⟨hvariadic, hlength⟩ := hmore
    obtain ⟨init, last, hparameters, -⟩ := Verb.last_of_variadic hvariadic
    have hkind := Signature.kindAt?_last hparameters hvariadic
    obtain ⟨-, rfl⟩ := (shape_eq_ok hvariadic hlength hkind).1 h
    intro v hv
    rcases List.mem_append.1 hv with hv | hv
    · exact hvalues v (List.mem_of_mem_take hv)
    · cases List.mem_singleton.1 hv
      exact Value.belongs_gather fun u hu => hvalues u (List.mem_of_mem_drop hu)
  · rw [shape_eq_self fun hvariadic => Nat.not_lt.1 fun hlt => hmore ⟨hvariadic, hlt⟩] at h
    cases h
    exact hvalues

/-! ## Arguments -/

variable {l : Layout} {supplied : List Value} {tokens : List Token}

/-- The values of admitted parameters are taken by the signature. -/
theorem takes_resolveAll (hadmits : verb.Admits tokens) {values : List Value}
    (h : (resolveAll t context supplied tokens).1 = .ok values) :
    verb.signature.Takes values := by
  have hall := satisfies_resolveFrom h
  refine ⟨hall.length_eq ▸ hadmits.accepts, ?_⟩
  intro i v hv
  obtain ⟨hi, rfl⟩ := List.getElem?_eq_some_iff.1 hv
  have hi' : i < tokens.length := by rwa [hall.length_eq]
  obtain ⟨kind, hkind, hsatisfies⟩ := hadmits.satisfies i _ (List.getElem?_eq_getElem hi')
  exact ⟨kind, hkind, Kind.satisfies_trans (hall.get hi' hi) hsatisfies⟩

/-- The arguments of a verb are the values of its parameters, brought to the signature. -/
theorem arguments_eq (hadmits : verb.Admits tokens) :
    (arguments t context verb supplied tokens).1 =
      (resolveAll t context supplied tokens).1.bind (shape verb context) := by
  unfold arguments
  rw [hadmits.accepts]
  rfl

/-- Arguments found for admitted parameters fit the signature. -/
theorem arguments_fit (hadmits : verb.Admits tokens) {args : List Value}
    (h : (arguments t context verb supplied tokens).1 = .ok args) : verb.signature.Fits args := by
  rw [arguments_eq hadmits] at h
  obtain ⟨values, hvalues, hshape⟩ := bind_ok.1 h
  obtain ⟨args', hargs', hfits⟩ := shape_fits context (takes_resolveAll hadmits hvalues)
  rw [hargs'] at hshape
  cases hshape
  exact hfits

/-- If finding arguments fails, it is at a parameter that cannot be given a value. -/
theorem fails_of_arguments (ht : t.SetFor l) (hadmits : verb.Admits tokens)
    (htokens : ∀ token ∈ tokens, token.Closed l phases) {e : RuntimeError}
    (h : (arguments t context verb supplied tokens).1 = .error e) :
    ∃ before token after values rest, tokens = before ++ token :: after ∧
      resolveAll t context supplied before = (.ok values, rest) ∧
      token.Fails t context before.length rest e := by
  rw [arguments_eq hadmits] at h
  rcases bind_error.1 h with h | ⟨values, hvalues, hshape⟩
  · obtain ⟨before, token, after, values, rest, heq, hbefore, hfails⟩ :=
      fails_of_resolveFrom ht htokens h
    exact ⟨before, token, after, values, rest, heq, hbefore, by rwa [Nat.zero_add] at hfails⟩
  · obtain ⟨args, hargs, -⟩ := shape_fits context (takes_resolveAll hadmits hvalues)
    rw [hargs] at hshape
    cases hshape

/-- If the supplied values are of the game, the arguments are. -/
theorem belongs_arguments (ht : t.SetFor l) (hadmits : verb.Admits tokens)
    (htokens : ∀ token ∈ tokens, token.Closed l phases)
    (hsupplied : ∀ v ∈ supplied, v.belongs t phases = true) {args : List Value}
    (h : (arguments t context verb supplied tokens).1 = .ok args) :
    ∀ v ∈ args, v.belongs t phases = true := by
  rw [arguments_eq hadmits] at h
  obtain ⟨values, hvalues, hshape⟩ := bind_ok.1 h
  exact belongs_shape hshape (belongs_resolveFrom ht htokens hsupplied hvalues)

end Token

/-! ## Calls whose arguments fit -/

namespace Call

variable {c : Call}

/-- The argument for a parameter is there and does for its kind. -/
theorem exists_value (h : c.verb.signature.Fits c.values) {i : Nat} {kind : Kind}
    (hkind : (c.verb.signature.parameters.map (·.kind))[i]? = some kind) :
    ∃ v, c.values[i]? = some v ∧ v.fits kind = true := by
  rw [List.getElem?_map] at hkind
  obtain ⟨p, hp, rfl⟩ := Option.map_eq_some_iff.1 hkind
  obtain ⟨hi, rfl⟩ := List.getElem?_eq_some_iff.1 hp
  have hi' : i < c.values.length := by rwa [← h.length_eq]
  exact ⟨c.values[i], List.getElem?_eq_getElem hi', h.get hi hi'⟩

/-- An argument that fits can be read as the kind of its parameter. -/
theorem read_succeeds {α : Type} {view : Value → Option α} {i : Nat} {kind : Kind}
    (h : c.verb.signature.Fits c.values)
    (hkind : (c.verb.signature.parameters.map (·.kind))[i]? = some kind)
    (hview : ∀ v, v.fits kind = true → (view v).isSome = true) :
    Succeeds (c.read i kind view) := by
  obtain ⟨v, hv, hfits⟩ := exists_value h hkind
  obtain ⟨a, ha⟩ := Option.isSome_iff_exists.1 (hview v hfits)
  exact ⟨a, read_ok.2 ⟨v, hv, ha⟩⟩

/-- A call whose arguments fit stands for an operation. -/
theorem operation_succeeds (h : c.verb.signature.Fits c.values) : Succeeds c.operation := by
  obtain ⟨verb, values⟩ := c
  -- One line for each way of reading an argument: what does for the kind can be read as it.
  have hseat : ∀ i, (verb.signature.parameters.map (·.kind))[i]? = some .player →
      Succeeds (seat ⟨verb, values⟩ i) := fun i hi =>
    read_succeeds h hi fun v hv => by cases v <;> first | rfl | cases hv
  have hphase : ∀ i, (verb.signature.parameters.map (·.kind))[i]? = some .phase →
      Succeeds (phase ⟨verb, values⟩ i) := fun i hi =>
    read_succeeds h hi fun v hv => by cases v <;> first | rfl | cases hv
  have hinteger : ∀ i, (verb.signature.parameters.map (·.kind))[i]? = some .integer →
      Succeeds (integer ⟨verb, values⟩ i) := fun i hi =>
    read_succeeds h hi fun v hv => by cases v <;> first | rfl | cases hv
  have hpile : ∀ i, (verb.signature.parameters.map (·.kind))[i]? = some .pile →
      Succeeds (pile ⟨verb, values⟩ i) := fun i hi =>
    read_succeeds h hi fun v hv => by cases v <;> first | rfl | cases hv
  have hcard : ∀ i, (verb.signature.parameters.map (·.kind))[i]? = some .card →
      Succeeds (card ⟨verb, values⟩ i) := fun i hi =>
    read_succeeds h hi fun v hv => by cases v <;> first | rfl | cases hv
  have hpiles : ∀ i, (verb.signature.parameters.map (·.kind))[i]? = some .piles →
      Succeeds (piles ⟨verb, values⟩ i) := fun i hi =>
    read_succeeds h hi fun v hv => by simp [hv]
  have hcards : ∀ i, (verb.signature.parameters.map (·.kind))[i]? = some .cards →
      Succeeds (cards ⟨verb, values⟩ i) := fun i hi =>
    read_succeeds h hi fun v hv => by simp [hv]
  cases verb <;>
    repeat first
      | exact .pure
      | refine .bind (hpile _ rfl) fun _ => ?_
      | refine .bind (hcard _ rfl) fun _ => ?_
      | refine .bind (hseat _ rfl) fun _ => ?_
      | refine .bind (hphase _ rfl) fun _ => ?_
      | refine .bind (hinteger _ rfl) fun _ => ?_
      | refine .bind (hpiles _ rfl) fun _ => ?_
      | refine .bind (hcards _ rfl) fun _ => ?_

end Call

namespace Operation

variable {c : Call} {ranking : Ranking} {phases : Nat} {t : Table}

/-- A call whose arguments fit is carried out, unless one of them is not of the game. -/
theorem dispatch_of_fits (h : c.verb.signature.Fits c.values) :
    Succeeds (dispatch c ranking phases t) ∨
      ∃ v ∈ c.values, v.belongs t phases = false ∧ dispatch c ranking phases t =
        .error (.unusableArgument c.verb.keyword v.describe "not part of this game") := by
  have harity : ¬ c.values.length < c.verb.signature.arity :=
    Nat.not_lt.2 (Nat.le_of_eq h.length_eq)
  cases hfind : c.values.find? fun value => !value.belongs t phases with
  | some v =>
    refine .inr ⟨v, List.mem_of_find?_eq_some hfind, by simpa using List.find?_some hfind, ?_⟩
    simp only [dispatch, prepare, harity, if_false, hfind]
    rfl
  | none =>
    left
    have hall : ∀ v ∈ c.values, v.belongs t phases = true := by
      simpa using List.find?_eq_none.1 hfind
    obtain ⟨op, hop⟩ := c.operation_succeeds h
    have hprepare : prepare c t phases = .ok op := prepare_ok.2 ⟨Nat.not_lt.1 harity, hall, hop⟩
    exact ⟨_, bind_ok.2 ⟨op, hprepare, rfl⟩⟩

end Operation

/-! ## Compiled calls -/

/-- An open parameter meets a supplied value that does not do for its kind. -/
def Token.MeetUnfit (t : Table) (context : String) (supplied : List Value)
    (tokens : List Token) : Prop :=
  ∃ before kind after values value rest, tokens = before ++ .placeholder kind :: after ∧
    resolveAll t context supplied before = (.ok values, value :: rest) ∧ value.fits kind = false

/-- The error says that a parameter asks for the card at an end of a pile, which is empty. -/
def Token.AskEmpty (t : Table) (context : String) (tokens : List Token) (e : RuntimeError) : Prop :=
  ∃ selector id pile, t.select? selector = some id ∧ t.board.pile? id = some pile ∧
    pile.cards = [] ∧
    ((.top selector ∈ tokens ∧
        e = .unusableArgument context ("top." ++ pile.name) "pile is empty") ∨
      .bottom selector ∈ tokens ∧
        e = .unusableArgument context ("bottom." ++ pile.name) "pile is empty")

namespace Graph

variable {doc : Document} {l : Layout} {g : Graph} {verb : Verb} {tokens : List Token} {t : Table}

/-- Without open parameters the arguments are of the game whatever is supplied. -/
theorem belongs_of_not_open (hadmits : verb.Admits tokens) (ht : t.SetFor l)
    (htokens : ∀ token ∈ tokens, token.Closed l g.phases.length)
    (hopen : ∀ token ∈ tokens, token.isPlaceholder = false) {context : String}
    {supplied args : List Value}
    (h : (Token.arguments t context verb supplied tokens).1 = .ok args) :
    ∀ v ∈ args, v.belongs t g.phases.length = true := by
  have hempty : (Token.arguments t context verb [] tokens).1 = .ok args := by
    rw [← h, Token.arguments_eq hadmits, Token.arguments_eq hadmits]
    exact congrArg (Except.bind · (Token.shape verb context))
      (Token.resolveFrom_of_not_open hopen).symm
  exact Token.belongs_arguments ht hadmits htokens (fun v hv => absurd hv List.not_mem_nil) hempty

/-- Finding arguments fails for no number, and for a kind only where something supplied does not do
for an open parameter. -/
theorem meetUnfit_of_error (hadmits : verb.Admits tokens) (ht : t.SetFor l)
    (htokens : ∀ token ∈ tokens, token.Closed l g.phases.length) {context : String}
    {supplied : List Value} {e : RuntimeError}
    (he : (Token.arguments t context verb supplied tokens).1 = .error e) :
    (∀ operation expected actual, e ≠ .wrongArgumentCount operation expected actual) ∧
      ∀ operation i expected actual, e = .wrongArgumentKind operation i expected actual →
        Token.MeetUnfit t context supplied tokens := by
  obtain ⟨before, token, after, values, rest, heq, hbefore, hfails⟩ :=
    Token.fails_of_arguments ht hadmits htokens he
  cases hfails with
  | missing kind => exact ⟨nofun, nofun⟩
  | unfit rest hfits =>
    refine ⟨nofun, ?_⟩
    rintro _ _ _ _ ⟨⟩
    exact ⟨before, _, after, values, _, rest, heq, hbefore, hfits⟩
  | top => exact ⟨nofun, nofun⟩
  | bottom => exact ⟨nofun, nofun⟩

/-- A call on arguments that were found is carried out, unless something supplied is not of the
game. -/
theorem dispatch_of_arguments (hadmits : verb.Admits tokens) (ht : t.SetFor l)
    (htokens : ∀ token ∈ tokens, token.Closed l g.phases.length) (ranking : Ranking)
    {context : String} {supplied args : List Value}
    (hargs : (Token.arguments t context verb supplied tokens).1 = .ok args) :
    Succeeds (Operation.dispatch ⟨verb, args⟩ ranking g.phases.length t) ∨
      (∃ v ∈ supplied, v.belongs t g.phases.length = false) ∧
        ∃ v : Value, Operation.dispatch ⟨verb, args⟩ ranking g.phases.length t =
          .error (.unusableArgument verb.keyword v.describe "not part of this game") := by
  have hfits := Token.arguments_fit hadmits hargs
  rcases Operation.dispatch_of_fits (c := ⟨verb, args⟩) hfits with hok | ⟨v, hv, hnot, herror⟩
  · exact .inl hok
  · refine .inr ⟨?_, v, herror⟩
    by_contra hnone
    have hsupplied : ∀ v ∈ supplied, v.belongs t g.phases.length = true := by
      intro v hv
      by_contra hfalse
      exact hnone ⟨v, hv, by simpa using hfalse⟩
    have hbelongs := Token.belongs_arguments ht hadmits htokens hsupplied hargs v hv
    rw [hbelongs] at hnot
    cases hnot

/-- Without open parameters a call fails only for a card asked for at the end of an empty pile. -/
theorem askEmpty_of_error (hadmits : verb.Admits tokens) (ht : t.SetFor l)
    (htokens : ∀ token ∈ tokens, token.Closed l g.phases.length)
    (hopen : ∀ token ∈ tokens, token.isPlaceholder = false) {ranking : Ranking} {context : String}
    {supplied : List Value} {e : RuntimeError}
    (he : ((Token.arguments t context verb supplied tokens).1 >>= fun args =>
      Operation.dispatch ⟨verb, args⟩ ranking g.phases.length t) = .error e) :
    Token.AskEmpty t context tokens e := by
  rcases bind_error.1 he with he | ⟨args, hargs, he⟩
  · obtain ⟨before, token, after, values, rest, heq, -, hfails⟩ :=
      Token.fails_of_arguments ht hadmits htokens he
    have hmem : token ∈ tokens := by simp [heq]
    cases hfails with
    | missing kind => cases hopen _ hmem
    | unfit rest hfits => cases hopen _ hmem
    | top supplied hid hpile hempty =>
      exact ⟨_, _, _, hid, hpile, hempty, .inl ⟨hmem, rfl⟩⟩
    | bottom supplied hid hpile hempty =>
      exact ⟨_, _, _, hid, hpile, hempty, .inr ⟨hmem, rfl⟩⟩
  · have hbelongs := belongs_of_not_open (g := g) hadmits ht htokens hopen hargs
    have hfits := Token.arguments_fit hadmits hargs
    rcases Operation.dispatch_of_fits (c := ⟨verb, args⟩) hfits with ⟨_, hok⟩ | ⟨v, hv, hnot, -⟩
    · rw [hok] at he
      cases he
    · rw [hbelongs v hv] at hnot
      cases hnot

/-- A compiled call is well typed, at every table set for the layout and whatever is supplied.
Finding its arguments never fails for their number, and for a kind only where an open parameter
meets a supplied value that does not do. The arguments found are as many as the verb has parameters,
each of a kind that does. The call is then carried out, unless something supplied is not of the
game. And without open parameters only one thing can go wrong at all: that a card is asked for at
the end of an empty pile. -/
theorem compiled_call_well_typed (h : compile doc l = .ok g) (hcall : g.Calls verb tokens)
    (ht : t.SetFor l) (ranking : Ranking) (context : String) (supplied : List Value) :
    (∀ e, (Token.arguments t context verb supplied tokens).1 = .error e →
      (∀ operation expected actual, e ≠ .wrongArgumentCount operation expected actual) ∧
        ∀ operation i expected actual, e = .wrongArgumentKind operation i expected actual →
          Token.MeetUnfit t context supplied tokens) ∧
    (∀ args, (Token.arguments t context verb supplied tokens).1 = .ok args →
      args.length = verb.signature.arity ∧
      (∀ i v, args[i]? = some v →
        ∃ kind, verb.signature.kindAt? i = some kind ∧ v.fits kind = true) ∧
      (Succeeds (Operation.dispatch ⟨verb, args⟩ ranking g.phases.length t) ∨
        (∃ v ∈ supplied, v.belongs t g.phases.length = false) ∧
          ∃ v : Value, Operation.dispatch ⟨verb, args⟩ ranking g.phases.length t =
            .error (.unusableArgument verb.keyword v.describe "not part of this game"))) ∧
    ((∀ token ∈ tokens, token.isPlaceholder = false) → ∀ e,
      ((Token.arguments t context verb supplied tokens).1 >>= fun args =>
        Operation.dispatch ⟨verb, args⟩ ranking g.phases.length t) = .error e →
      Token.AskEmpty t context tokens e) := by
  have hadmits := admits_of_compile h hcall
  have htokens : ∀ token ∈ tokens, token.Closed l g.phases.length := fun token htoken =>
    (closed_of_compile h).tokens token (hcall.mem_tokens token htoken)
  refine ⟨?_, ?_, ?_⟩
  · intro e he
    exact meetUnfit_of_error hadmits ht htokens he
  · intro args hargs
    have hfits := Token.arguments_fit hadmits hargs
    refine ⟨hfits.length_eq.symm, ?_, dispatch_of_arguments hadmits ht htokens ranking hargs⟩
    intro i v hv
    obtain ⟨hi, rfl⟩ := List.getElem?_eq_some_iff.1 hv
    have hi' : i < verb.signature.parameters.length := by rwa [hfits.length_eq]
    exact ⟨_, Signature.kindAt?_of_lt hi', hfits.get hi' hi⟩
  · intro hopen e he
    exact askEmpty_of_error hadmits ht htokens hopen he

/-- In the small game drawing is such a call, at a table of two and with nothing supplied. -/
theorem drawing_call_well_typed :
    ∃ l g tokens, compile drawingRules l = .ok g ∧ g.Calls .putTop tokens ∧
      ∀ t, t = Table.fresh (.ofLayout l 2) [.seated "ann" [], .seated "bob" []] .clockwise
          (.ofSeed 0) →
        ∀ args, (Token.arguments t "take" .putTop [] tokens).1 = .ok args →
          Succeeds (Operation.dispatch ⟨.putTop, args⟩ .flat g.phases.length t) := by
  have hverbs : drawing.map (fun (x : Layout × Graph) => x.2.actions.map (·.verb)) =
      .ok [.putTop, .goTo] := by decide +kernel
  obtain ⟨⟨l, g⟩, h, hactions⟩ := map_ok.1 hverbs
  have hg := compile_of_drawing h
  have hmem : Verb.putTop ∈ g.actions.map (·.verb) := hactions ▸ List.mem_cons_self
  obtain ⟨a, ha, hverb⟩ := List.mem_map.1 hmem
  have hcall : g.Calls .putTop a.parameters := .inl ⟨a, ha, hverb, rfl⟩
  refine ⟨l, g, a.parameters, hg, hcall, ?_⟩
  rintro t rfl args hargs
  have ht : (Table.fresh (.ofLayout l 2) [.seated "ann" [], .seated "bob" []] .clockwise
      (.ofSeed 0)).SetFor l := .fresh l (by rfl) (by decide) (by decide) .clockwise (.ofSeed 0)
  obtain ⟨-, htyped, -⟩ := compiled_call_well_typed hg hcall ht .flat "take" []
  rcases (htyped args hargs).2.2 with hok | ⟨⟨v, hv, -⟩, -⟩
  · exact hok
  · cases hv

end Graph

end HouseRules
