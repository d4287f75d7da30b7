import HouseRules.Proofs.Argument.Typing
import HouseRules.Proofs.Strict.Basic
import HouseRules.Verdict

/-!
# Tables and arguments read strictly

Players are taken by their seat and piles by their number. Here is once more what is looked up at a
table: whose turn it is, the players next to them, whether the game is over, and the values of
parameters. It is read strictly, so `none` says that a seat or a pile was not there, or that a
difference would have been below zero.

At a table where somebody's turn it is and all seats can be numbered this never happens: a step from
a seat of the table leads to a seat of the table, and a pile that was found is on the board.
-/

namespace HouseRules

/-! ## Going round -/

/-- `Direction.step`, read strictly: a step back takes one from a sum. -/
def Direction.stepStrict (d : Direction) (s : Seat) (count : Nat) : Option Seat :=
  let n := max count 1
  match d with
  | .clockwise => some (.ofNat ((s.index + 1) % n))
  | .counterclockwise => do
    let place ← (s.index + n).psub 1
    return .ofNat (place % n)

@[simp] theorem Direction.stepStrict_eq (d : Direction) (s : Seat) (count : Nat) :
    d.stepStrict s count = some (d.step s count) := by
  cases d with
  | clockwise => rfl
  | counterclockwise =>
    have hle : 1 ≤ s.index + max count 1 := by omega
    simp only [stepStrict, step, Nat.psub_eq_sub hle]
    rfl

/-- `Direction.walk`, read strictly. -/
def Direction.walkStrict (d : Direction) (count : Nat) : (n : Nat) → Seat → Option (List Seat)
  | 0, _ => some []
  | n + 1, s => do
    let next ← d.stepStrict s count
    let rest ← d.walkStrict count n next
    return s :: rest

@[simp] theorem Direction.walkStrict_eq (d : Direction) (count n : Nat) (s : Seat) :
    d.walkStrict count n s = some (d.walk count n s) := by
  induction n generalizing s with
  | zero => rfl
  | succ n ih =>
    rw [walkStrict, stepStrict_eq, Option.bind_eq_bind, Option.bind_some, ih]
    rfl

namespace Table

variable {t : Table}

/-- `Table.seek`, read strictly. -/
def seekStrict (t : Table) (d : Direction) (home : Seat) : (n : Nat) → Seat → Option Seat
  | 0, _ => some home
  | n + 1, seat => do
    let seat ← d.stepStrict seat t.count
    if seat = home then return seat
    else
      let player ← t.player? seat
      if player.isActive then return seat else t.seekStrict d home n seat

/-- `Table.neighbour`, read strictly. -/
def neighbourStrict (t : Table) (seat : Seat) (d : Direction) : Option Seat :=
  t.seekStrict d seat t.count seat

/-- `Table.pass`, read strictly. -/
def passStrict (t : Table) : (n : Nat) → Seat → (turn : Nat) → Option (Seat × Nat)
  | 0, seat, turn => some (seat, turn)
  | n + 1, seat, turn => do
    let seat ← t.direction.stepStrict seat t.count
    let turn := if seat = Seat.first then turn + 1 else turn
    let player ← t.player? seat
    if player.isActive then return (seat, turn) else t.passStrict n seat turn

/-- `Table.advanceTurn`, read strictly. -/
def advanceTurnStrict (t : Table) : Option Table :=
  if t.activeSeats.isEmpty then some t
  else do
    let (seat, turn) ← t.passStrict t.count t.current t.turn
    return { t with current := seat, turn }

/-- The player in a seat of the table. -/
theorem exists_player? {seat : Seat} (h : seat.index < t.count) :
    ∃ player, t.player? seat = some player :=
  ⟨_, List.getElem?_eq_getElem h⟩

/-- Whether a seat is active is told by the player who sits there. -/
theorem isActive_of_player? {seat : Seat} {player : Player} (h : t.player? seat = some player) :
    t.isActive seat = player.isActive := by
  rw [isActive, h]
  rfl

/-- A step from anywhere leads to a seat of the table. -/
theorem step_lt_count (seat : Seat) (d : Direction) (hsome : 0 < t.count)
    (hcount : t.count ≤ 255) : (d.step seat t.count).index < t.count :=
  d.step_lt seat hsome (Nat.le_succ_of_le hcount)

/-- Looking for a player in a direction takes only seats of the table. -/
theorem seekStrict_eq (hsome : 0 < t.count) (hcount : t.count ≤ 255) (d : Direction)
    (home : Seat) (n : Nat) (seat : Seat) :
    t.seekStrict d home n seat = some (t.seek d home n seat) := by
  induction n generalizing seat with
  | zero => rfl
  | succ n ih =>
    obtain ⟨player, hplayer⟩ := exists_player? (step_lt_count seat d hsome hcount)
    simp only [seekStrict, seek, Direction.stepStrict_eq, Option.bind_eq_bind, Option.bind_some,
      hplayer, isActive_of_player? hplayer, ih]
    by_cases hhome : d.step seat t.count = home
    · simp [hhome]
    · cases player.isActive <;> simp [hhome]

/-- Finding the next player takes only seats of the table. -/
theorem neighbourStrict_eq (hsome : 0 < t.count) (hcount : t.count ≤ 255) (seat : Seat)
    (d : Direction) : t.neighbourStrict seat d = some (t.neighbour seat d) :=
  seekStrict_eq hsome hcount d seat t.count seat

/-- Passing the turn takes only seats of the table. -/
theorem passStrict_eq (hsome : 0 < t.count) (hcount : t.count ≤ 255) (n : Nat) (seat : Seat)
    (turn : Nat) : t.passStrict n seat turn = some (t.pass n seat turn) := by
  induction n generalizing seat turn with
  | zero => rfl
  | succ n ih =>
    obtain ⟨player, hplayer⟩ :=
      exists_player? (step_lt_count seat t.direction hsome hcount)
    simp only [passStrict, pass, Direction.stepStrict_eq, Option.bind_eq_bind, Option.bind_some,
      hplayer, isActive_of_player? hplayer, ih]
    cases player.isActive <;> rfl

/-- Advancing the turn takes only seats of the table. -/
theorem advanceTurnStrict_eq (hsome : 0 < t.count) (hcount : t.count ≤ 255) :
    t.advanceTurnStrict = some t.advanceTurn := by
  unfold advanceTurnStrict advanceTurn
  split
  · rfl
  · simp only [passStrict_eq hsome hcount, Option.bind_eq_bind, Option.bind_some]
    rfl

/-! ## The end of the game -/

/-- `Table.verdict?`, read strictly: a single winner is the first of the winners. -/
def verdictStrict (t : Table) : Option (Option Verdict) :=
  let winners := t.seatsWhere (·.status == .won)
  if winners.length = 1 then do
    let seat ← winners[0]?
    return some (.winner seat)
  else if winners.length > 1 then some (some (.winners winners))
  else
    some (match t.activeSeats with
      | [] => some .draw
      | [last] => if t.count > 1 then some (.winner last) else none
      | _ => none)

/-- `Table.isOver`, read strictly. -/
def isOverStrict (t : Table) : Option Bool := do
  let verdict ← t.verdictStrict
  return verdict.isSome

/-- Finding out whether the game is over takes only players who are there. -/
theorem verdictStrict_eq (t : Table) : t.verdictStrict = some t.verdict? := by
  unfold verdictStrict verdict?
  match t.seatsWhere (·.status == .won) with
  | [] => rfl
  | [_] => rfl
  | _ :: _ :: _ => simp

@[simp] theorem isOverStrict_eq (t : Table) : t.isOverStrict = some t.isOver := by
  rw [isOverStrict, verdictStrict_eq]
  rfl

end Table

/-! ## Arguments -/

namespace Table

/-- `Table.seatOf`, read strictly. -/
def seatOfStrict (t : Table) : PlayerRef → Option Seat
  | .current => some t.current
  | .next => t.neighbourStrict t.current t.direction
  | .previous => t.neighbourStrict t.current t.direction.reversed
  | .first => some .first

/-- `Table.select?`, read strictly; `some none` says that no pile was found. -/
def selectStrict (t : Table) (selector : PileSelector) : Option (Option PileId) := do
  let seat ←
    match selector.owner with
    | .current => some t.current
    | .next => t.neighbourStrict t.current t.direction
    | .previous => t.neighbourStrict t.current t.direction.reversed
  return t.board.find? selector.slot seat

end Table

namespace Token

/-- `Token.selected`, read strictly. -/
def selectedStrict (t : Table) (context : String) (selector : PileSelector) :
    Strict RuntimeError PileId := do
  let n := selector.slot.index
  let id ← t.selectStrict selector
  orFail (unresolved context s!"pile slot {n}" "no such pile") id

/-- `Token.selectedPile`, read strictly: a pile that was found is taken by its number. -/
def selectedPileStrict (t : Table) (context : String) (selector : PileSelector) :
    Strict RuntimeError Pile := do
  let id ← selectedStrict t context selector
  t.board.pile? id

/-- `Token.constant`, read strictly. -/
def constantStrict (t : Table) (context : String) : Token → Strict RuntimeError Value
  | .player who => return .player (← t.seatOfStrict who)
  | .pile selector => return .pile (← selectedStrict t context selector)
  | .piles slot => return .piles (t.board.instances slot)
  | .top selector => do
    let pile ← selectedPileStrict t context selector
    let card ← orFail (unresolved context ("top." ++ pile.name) "pile is empty") pile.top?
    return .card card
  | .bottom selector => do
    let pile ← selectedPileStrict t context selector
    let card ← orFail (unresolved context ("bottom." ++ pile.name) "pile is empty") pile.bottom?
    return .card card
  | .contents selector => return .cards (← selectedPileStrict t context selector).cards
  | .phase id => return .phase id
  | .integer n => return .integer n
  | .text s => return .text s
  | .placeholder kind =>
    throw (unresolved context kind.keyword "placeholder is not a constant")

/-- `Token.resolve`, read strictly. -/
def resolveStrict (t : Table) (context : String) (index : Nat) (supplied : List Value) :
    Token → Option (Supplied Value)
  | .placeholder kind => some (take context kind index supplied)
  | token => do
    let value ← (constantStrict t context token).run
    return (value, supplied)

/-- `Token.resolveFrom`, read strictly. -/
def resolveFromStrict (t : Table) (context : String) (index : Nat) (supplied : List Value) :
    List Token → Option (Supplied (List Value))
  | [] => some (.ok [], supplied)
  | token :: tokens => do
    match ← resolveStrict t context index supplied token with
    | (.error e, rest) => return (.error e, rest)
    | (.ok value, rest) => do
      let (values, rest) ← resolveFromStrict t context (index + 1) rest tokens
      return (values.map (value :: ·), rest)

/-- `Token.resolveAll`, read strictly. -/
def resolveAllStrict (t : Table) (context : String) (supplied : List Value)
    (tokens : List Token) : Option (Supplied (List Value)) :=
  resolveFromStrict t context 0 supplied tokens

/-- `Token.shape`, read strictly: the place of the last parameter is one less than their number, and
there are values to split off behind it. -/
def shapeStrict (verb : Verb) (context : String) (values : List Value) :
    Strict RuntimeError (List Value) := do
  let signature := verb.signature
  let arity := signature.arity
  if !signature.variadic || values.length ≤ arity then return values
  let place ← arity.psub 1
  let kind := (signature.kindAt? place).getD .cards
  let _ ← values.length.psub arity
  let last ← orFail (unresolved context verb.keyword "variadic parameter is not an array")
    ((values[place]?).bind (·.coerce? kind))
  let joined ← joinExtras verb kind arity last (values.drop arity)
  return values.take place ++ [joined]

/-- `Token.arguments`, read strictly. -/
def argumentsStrict (t : Table) (context : String) (verb : Verb) (supplied : List Value)
    (tokens : List Token) : Strict RuntimeError (List Value) := do
  if !verb.signature.accepts tokens.length then
    throw (.wrongArgumentCount verb.keyword verb.signature.arity tokens.length)
  let (values, _) ← resolveAllStrict t context supplied tokens
  shapeStrict verb context (← values)

/-! ### They are found as before -/

section

variable {t : Table} (hsome : 0 < t.count) (hcount : t.count ≤ 255)

include hsome hcount

/-- The seat that a reference means is found among those of the table. -/
theorem seatOfStrict_eq (who : PlayerRef) : t.seatOfStrict who = some (t.seatOf who) := by
  cases who with
  | current => rfl
  | next => exact Table.neighbourStrict_eq hsome hcount _ _
  | previous => exact Table.neighbourStrict_eq hsome hcount _ _
  | first => rfl

/-- The pile that a selector means is looked up for a seat of the table. -/
theorem selectStrict_eq (selector : PileSelector) :
    t.selectStrict selector = some (t.select? selector) := by
  unfold Table.selectStrict Table.select? Table.ownerSeat
  cases selector.owner with
  | current => rfl
  | next =>
    simp only [Table.neighbourStrict_eq hsome hcount]
    rfl
  | previous =>
    simp only [Table.neighbourStrict_eq hsome hcount]
    rfl

/-- Asking for the pile that a selector means takes nothing that is not there. -/
theorem selectedStrict_eq (context : String) (selector : PileSelector) :
    selectedStrict t context selector = some (selected t context selector) := by
  simp only [selectedStrict, selectStrict_eq hsome hcount]
  rfl

/-- A pile that was found is on the board. -/
theorem selectedPileStrict_eq (context : String) (selector : PileSelector) :
    selectedPileStrict t context selector = some (selectedPile t context selector) := by
  refine Strict.bind_eq (selectedStrict_eq hsome hcount context selector) fun id hid => ?_
  obtain ⟨pile, hpile⟩ := Board.exists_pile? (Board.find?_lt (orFail_eq_ok.1 hid))
  rw [hpile]
  rfl

/-- A parameter that stands for something is looked up without taking a pile that is not there. -/
theorem constantStrict_eq (context : String) (token : Token) :
    constantStrict t context token = some (constant t context token) := by
  cases token with
  | player who =>
    simp only [constantStrict, seatOfStrict_eq hsome hcount]
    rfl
  | pile selector =>
    exact Strict.bind_eq (selectedStrict_eq hsome hcount context selector) fun _ _ => rfl
  | top selector | bottom selector =>
    refine Strict.bind_eq (selectedPileStrict_eq hsome hcount context selector) fun _ _ => ?_
    exact Strict.read_bind fun _ _ => rfl
  | contents selector =>
    exact Strict.bind_eq (selectedPileStrict_eq hsome hcount context selector) fun _ _ => rfl
  | _ => rfl

/-- A parameter is resolved without taking a value that was not supplied. -/
theorem resolveStrict_eq (context : String) (index : Nat) (supplied : List Value) (token : Token) :
    resolveStrict t context index supplied token =
      some (resolve t context index supplied token) := by
  cases token with
  | placeholder kind => rfl
  | _ =>
    simp only [resolveStrict, constantStrict_eq hsome hcount]
    rfl

/-- Parameters are resolved without taking a value that was not supplied. -/
theorem resolveFromStrict_eq (context : String) (index : Nat) (supplied : List Value)
    (tokens : List Token) :
    resolveFromStrict t context index supplied tokens =
      some (resolveFrom t context index supplied tokens) := by
  induction tokens generalizing index supplied with
  | nil => rfl
  | cons token tokens ih =>
    simp only [resolveFromStrict, resolveFrom, resolveStrict_eq hsome hcount, ih,
      Option.bind_eq_bind, Option.bind_some]
    obtain ⟨e | value, rest⟩ := resolve t context index supplied token <;> rfl

omit hsome hcount in
/-- A verb that joins its arguments has a parameter to join them to. -/
theorem shapeStrict_eq (verb : Verb) (context : String) (values : List Value) :
    shapeStrict verb context values = some (shape verb context values) := by
  unfold shapeStrict shape
  dsimp only
  split
  · rfl
  next hmore =>
    simp only [Bool.or_eq_true, Bool.not_eq_true', decide_eq_true_eq, not_or, Bool.not_eq_false,
      Nat.not_le] at hmore
    obtain ⟨hvariadic, hlength⟩ := hmore
    have harity : 1 ≤ verb.signature.arity := by
      obtain ⟨init, last, hparameters, -⟩ := Verb.last_of_variadic hvariadic
      rw [Signature.arity, hparameters, List.length_append]
      exact Nat.le_add_left ..
    rw [Strict.take_bind (Nat.psub_eq_sub harity), Strict.take_bind (Nat.psub_eq_sub hlength.le)]
    exact Strict.read_bind fun _ _ => Strict.read_bind fun _ _ => rfl

/-- The arguments of a call are found. -/
theorem argumentsStrict_eq (context : String) (verb : Verb) (supplied : List Value)
    (tokens : List Token) :
    argumentsStrict t context verb supplied tokens =
      some (arguments t context verb supplied tokens).1 := by
  unfold argumentsStrict arguments
  split
  · rfl
  · have hvalues := resolveFromStrict_eq hsome hcount context 0 supplied tokens
    refine (Strict.take_bind hvalues _).trans ?_
    exact Strict.read_bind fun values _ => shapeStrict_eq verb context values

end

end Token

end HouseRules
